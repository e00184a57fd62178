import VectorVault.LoadedMembership
import VectorVault.ReaderBounds

/-! A load is safe on any file shorter than 4 GiB.

The places of the vectors are computed exactly in files of up to 2⁴⁶ bytes. -/

namespace VectorVault.PersistenceManager

open Snapshot ByteReader

section Arithmetic

variable {header : Header} {total : Nat}

/-- The product of the record count and the stride, for a count below the size
of a file that is short enough. -/
theorem region_length_exact (small : total < 2 ^ 46)
    (dimensionality : header.dimensionality.toNat ≤ 65536)
    (recordCount : header.recordCount.toNat ≤ total) :
    header.recordCount.toNat * header.stride.toNat < word ∧
      (header.recordCount * header.stride).toNat =
        header.recordCount.toNat * header.stride.toNat := by
  have bound : header.recordCount.toNat * header.stride.toNat ≤ (2 ^ 46 - 1) * 2 ^ 18 := by
    apply Nat.mul_le_mul
    · omega
    · rw [stride_toNat]
      omega
  have noWrap : header.recordCount.toNat * header.stride.toNat < 2 ^ 64 :=
    lt_of_le_of_lt bound (by decide)
  exact ⟨noWrap, by rw [UInt64.toNat_mul, Nat.mod_eq_of_lt noWrap]⟩

/-- The place of a numbered vector is computed without a wrap and its window
ends in the vector region. -/
theorem position_exact {vectorIndex : UInt64}
    (exact_ : (header.recordCount * header.stride).toNat =
      header.recordCount.toNat * header.stride.toNat)
    (consistent : header.vectorRegionLen = header.recordCount * header.stride)
    (within : header.vectorRegionOff.toNat + header.vectorRegionLen.toNat < word)
    (indexed : vectorIndex < header.recordCount) :
    position header vectorIndex =
        header.vectorRegionOff.toNat + vectorIndex.toNat * header.stride.toNat ∧
      position header vectorIndex + header.stride.toNat ≤
        header.vectorRegionOff.toNat + header.vectorRegionLen.toNat := by
  rw [UInt64.lt_iff_toNat_lt] at indexed
  rw [consistent, exact_] at within ⊢
  have inside : vectorIndex.toNat * header.stride.toNat + header.stride.toNat ≤
      header.recordCount.toNat * header.stride.toNat := by
    calc vectorIndex.toNat * header.stride.toNat + header.stride.toNat
        = (vectorIndex.toNat + 1) * header.stride.toNat := (Nat.succ_mul _ _).symm
      _ ≤ header.recordCount.toNat * header.stride.toNat := Nat.mul_le_mul_right _ indexed
  have product : (vectorIndex * header.stride).toNat =
      vectorIndex.toNat * header.stride.toNat := by
    rw [UInt64.toNat_mul]
    exact Nat.mod_eq_of_lt (by simp only [word] at within; omega)
  have sum : position header vectorIndex =
      header.vectorRegionOff.toNat + vectorIndex.toNat * header.stride.toNat := by
    rw [position, UInt64.toNat_add, product]
    exact Nat.mod_eq_of_lt (by simp only [word] at within; omega)
  exact ⟨sum, by omega⟩

end Arithmetic

section Total

variable {path : Bytes} {content : FileContent} {preamble : Preamble}

theorem Preamble.Accepted.position_exact (accepted : preamble.Accepted path (.regular content))
    (small : content.bytes.length < 2 ^ 46) {vectorIndex : UInt64}
    (indexed : vectorIndex < preamble.header.recordCount) :
    position preamble.header vectorIndex = preamble.header.vectorRegionOff.toNat +
        vectorIndex.toNat * preamble.header.stride.toNat ∧
      position preamble.header vectorIndex + preamble.header.stride.toNat ≤
        content.bytes.length := by
  obtain ⟨_, isFile, isContent⟩ := accepted.content
  cases isFile
  rw [isContent] at small ⊢
  have region := accepted.vectorRegion
  have product := (region_length_exact small accepted.dimensionality.2 accepted.recordCount).2
  have within : preamble.header.vectorRegionOff.toNat + preamble.header.vectorRegionLen.toNat <
      word := by
    simp only [word]
    omega
  have place := PersistenceManager.position_exact product accepted.consistent within indexed
  exact ⟨place.1, by omega⟩

theorem readDirectory_total {header : Header} {total : Nat} (path : Bytes)
    (inside : ∀ vectorIndex < header.recordCount,
      position header vectorIndex + header.stride.toNat ≤ total)
    (remaining : Nat) (reader : ByteReader) (records : OrderedMap RecordId RecordSlot) :
    ∃ outcome, readDirectory path header total remaining reader records = .ok outcome := by
  induction remaining generalizing reader records with
  | zero => exact ⟨_, rfl⟩
  | succ remaining ih =>
      rw [readDirectory]
      cases entryRead : readEntry path header reader with
      | error error => exact ⟨_, rfl⟩
      | ok result =>
          obtain ⟨entry, next⟩ := result
          have place := inside entry.vectorIndex (readEntry_ok entryRead).2
          have slot : slotOf header total entry = .ok
              ⟨⟨.mapped (position header entry.vectorIndex), header.stride.toNat⟩,
                entry.metadata⟩ := if_pos place
          simp only [slot, bind, Except.bind]
          split
          · exact ⟨_, rfl⟩
          · exact ih next _

theorem load_total (path : Bytes) (allocator : MemoryAllocator) (tag : Nat)
    (small : content.bytes.length < 2 ^ 46) :
    ∃ outcome, load path allocator (.regular content) tag = .ok outcome := by
  rw [load]
  cases parsed : readPreamble path (.regular content) with
  | error error => exact ⟨_, rfl⟩
  | ok preamble =>
      have accepted := readPreamble_ok parsed
      have inside : ∀ vectorIndex < preamble.header.recordCount,
          position preamble.header vectorIndex + preamble.header.stride.toNat ≤
            preamble.bytes.length := by
        intro vectorIndex indexed
        have place := (accepted.position_exact small indexed).2
        obtain ⟨_, isFile, isContent⟩ := accepted.content
        cases isFile
        rw [isContent] at place
        exact place
      obtain ⟨directory, read⟩ := readDirectory_total path inside
        preamble.header.recordCount.toNat preamble.reader OrderedMap.empty
      simp only [read, bind, Except.bind]
      cases directory with
      | error error => exact ⟨_, rfl⟩
      | ok result =>
          obtain ⟨records, reader⟩ := result
          simp only
          split
          · exact ⟨_, rfl⟩
          · have listed := (readDirectory_ok (listed_empty _ _) read).1
            obtain ⟨view, shows_⟩ := listed.shows allocator tag
            obtain ⟨index, indexed⟩ := readIndex_total path shows_ listed.named
              preamble.indexRegion preamble.type
            rw [indexed]
            cases index with
            | error error => exact ⟨_, rfl⟩
            | ok index => exact ⟨_, rfl⟩

end Total

section Safe

/-- What a load that succeeds leaves: `reader` is past the last directory byte. -/
structure Placed (path : Bytes) (content : FileContent) (collection : Collection)
    (preamble : Preamble) (reader : ByteReader) : Prop where
  parsed : readPreamble path (.regular content) = .ok preamble
  directory : readDirectory path preamble.header content.bytes.length
    preamble.header.recordCount.toNat preamble.reader OrderedMap.empty =
      .ok (.ok (collection.records, reader))
  cursor : Cursor path content headerSize reader
  named : collection.records.find? [] = none
  distinct : collection.records.keys.Nodup
  complete : collection.records.size = preamble.header.recordCount.toNat
  counted : collection.recordCount = preamble.header.recordCount.toNat
  windows : ∀ id slot, collection.records.find? id = some slot → ∃ offset,
    slot.vectorBlock = ⟨.mapped offset, 4 * preamble.header.dimensionality.toNat⟩ ∧
      headerSize + reader.pos ≤ offset ∧
      offset + 4 * preamble.header.dimensionality.toNat ≤ content.bytes.length

structure LoadSafe (path : Bytes) (allocator : MemoryAllocator) (content : FileContent)
    (tag : Nat) : Prop where
  returns : ∃ outcome, load path allocator (.regular content) tag = .ok outcome
  reads : ∀ base reader, Cursor path content base reader → ∀ length < 2 ^ 32,
    ReadInside content.bytes base reader length
  parsers : ∀ base, Parsed (Cursor path content base)
  directory : ∀ preamble, readPreamble path (.regular content) = .ok preamble →
    Cursor path content headerSize preamble.reader
  regionLength : ∀ header, readHeader path content.bytes = .ok header →
    header.dimensionality.toNat ≤ 65536 → header.recordCount.toNat ≤ content.bytes.length →
    (header.recordCount * header.stride).toNat =
      header.recordCount.toNat * (header.dimensionality.toNat * 4)
  positions : ∀ preamble, readPreamble path (.regular content) = .ok preamble →
    ∀ vectorIndex < preamble.header.recordCount,
      position preamble.header vectorIndex = preamble.header.vectorRegionOff.toNat +
          vectorIndex.toNat * (preamble.header.dimensionality.toNat * 4) ∧
        position preamble.header vectorIndex + preamble.header.dimensionality.toNat * 4 ≤
          content.bytes.length
  placed : ∀ collection, load path allocator (.regular content) tag = .ok (.ok collection) →
    ∃ preamble reader, Placed path content collection preamble reader

variable {path : Bytes} {allocator : MemoryAllocator} {content : FileContent} {tag : Nat}

theorem load_placed (small : content.bytes.length < 2 ^ 32) {collection : Collection}
    (loaded : load path allocator (.regular content) tag = .ok (.ok collection)) :
    ∃ preamble reader, Placed path content collection preamble reader := by
  obtain ⟨preamble, records, reader, stages⟩ := load_ok loaded
  have accepted := stages.accepted
  have isRecords : collection.records = records := by rw [stages.result]; rfl
  have directory := stages.directory
  have total : preamble.bytes.length = content.bytes.length := by
    obtain ⟨_, isFile, isContent⟩ := accepted.content
    cases isFile
    rw [isContent]
  rw [← isRecords, total] at directory
  have cursor := (cursor_closed path content headerSize).directory directory accepted.cursor
  have counted : collection.recordCount = records.size := by rw [stages.result]; rfl
  refine ⟨preamble, reader, stages.parsed, directory, cursor, ?_, collection.records.nodup_keys, ?_,
    counted.trans stages.complete, ?_⟩
  · rw [isRecords]
    exact stages.listed.named
  · rw [isRecords]
    exact stages.complete
  · intro id slot found
    rw [isRecords] at found
    obtain ⟨vectorIndex, indexed, block, _⟩ := stages.listed.windows id slot found
    obtain ⟨place, inside⟩ := accepted.position_exact (small.trans (by decide)) indexed
    have stride := stride_toNat preamble.header
    have region := accepted.vectorRegion
    have within := stages.within
    refine ⟨position preamble.header vectorIndex, ?_, ?_, ?_⟩
    · rw [block, stride, Nat.mul_comm]
    · omega
    · omega

theorem load_safe (path : Bytes) (allocator : MemoryAllocator) (content : FileContent) (tag : Nat)
    (small : content.bytes.length < 2 ^ 32) : LoadSafe path allocator content tag where
  returns := load_total path allocator tag (small.trans (by decide))
  reads _ _ cursor _ field := (cursor.inside small).readInside small field
  parsers base := (cursor_closed path content base).parsed
  directory _ parsed := (readPreamble_ok parsed).cursor
  regionLength header _ dimensionality recordCount := by
    rw [← stride_toNat]
    exact (region_length_exact (small.trans (by decide)) dimensionality recordCount).2
  positions preamble parsed vectorIndex indexed := by
    rw [← stride_toNat]
    exact (readPreamble_ok parsed).position_exact (small.trans (by decide)) indexed
  placed _ loaded := load_placed small loaded

theorem load_safe_of_two_records :
    LoadSafe [] (MemoryAllocator.new 64 (fun _ => 0)) halfIndexedFile 1 :=
  load_safe [] _ halfIndexedFile 1 (by decide +kernel)

end Safe

end VectorVault.PersistenceManager
