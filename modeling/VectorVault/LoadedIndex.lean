import VectorVault.CollectionIndex
import VectorVault.ExactLine
import VectorVault.PersistenceLoad

/-! The index of a loaded collection.

The records of an accepted directory can be read, so an inverted-file index is
rebuilt over all of them. -/

namespace VectorVault.PersistenceManager

open Snapshot Collection

variable {path : Bytes} {allocator : MemoryAllocator} {collection : Collection}
  {view : OrderedMap RecordId RecordView}

section Records

variable {header : Header} {total : Nat}

theorem Window.components {slot : RecordSlot} (window : Window header total slot)
    (dimensionality : collection.config.dimensionality = header.dimensionality)
    (mapped : collection.mappedRegion.length = total) :
    ∃ offset, slot.vectorBlock.data = .mapped offset ∧
      collection.components allocator slot = .ok (getVector
        ((collection.mappedRegion.drop offset).take header.stride.toNat)) := by
  obtain ⟨vectorIndex, _, block, inside⟩ := window
  have bytes : collection.vectorBytes = header.stride.toNat := by
    rw [stride_toNat, vectorBytes, dimensionality]
  have fits : position header vectorIndex + header.stride.toNat ≤
      collection.mappedRegion.length := by
    rw [mapped]
    exact inside
  refine ⟨position header vectorIndex, by rw [block], ?_⟩
  simp only [Collection.components, readBlock, block, bytes, if_pos fits]
  rfl

theorem Listed.shows {preamble : Preamble} {records : OrderedMap RecordId RecordSlot}
    (listed : Listed preamble.header preamble.bytes.length records) (allocator : MemoryAllocator)
    (tag : Nat) : ∃ view : OrderedMap RecordId RecordView,
      (preamble.collection tag records).Shows allocator view := by
  apply shows_of_readable
  intro id slot found
  obtain ⟨_, _, read⟩ := @Window.components allocator (preamble.collection tag records) _ _ _
    (listed.windows id slot found) rfl rfl
  exact ⟨_, read⟩

theorem Loaded.shows {file : SnapshotFile} {tag : Nat} {preamble : Preamble}
    {records : OrderedMap RecordId RecordSlot} {reader : ByteReader}
    (loaded : Loaded path allocator file tag collection preamble records reader) :
    ∃ view : OrderedMap RecordId RecordView, collection.Shows allocator view := by
  obtain ⟨view, shows_⟩ := loaded.listed.shows allocator tag
  rw [loaded.result]
  exact ⟨view, shows_⟩

theorem Loaded.named {file : SnapshotFile} {tag : Nat} {preamble : Preamble}
    {records : OrderedMap RecordId RecordSlot} {reader : ByteReader}
    (loaded : Loaded path allocator file tag collection preamble records reader) :
    collection.records.find? [] = none := by
  rw [loaded.result]
  exact loaded.listed.named

end Records

section Rebuild

theorem rebuildIvf_of_populate {D : Type} [FloatOrder D] (host : Host D) (path : Bytes)
    (entries : List (RecordId × RecordSlot)) {index : IvfIndex} {final : Index}
    (populated : populate host allocator collection entries (.ivf index) = .ok (.ok (), final)) :
    ∃ rebuilt, final = .ivf rebuilt ∧
      rebuildIvf path allocator collection entries index = .ok (.ok rebuilt) := by
  induction entries generalizing index with
  | nil =>
      cases populated
      exact ⟨index, rfl, rfl⟩
  | cons entry rest ih =>
      obtain ⟨id, slot⟩ := entry
      obtain ⟨vec, read, populated⟩ := bind_ok populated
      obtain ⟨⟨status, next⟩, step, populated⟩ := bind_ok populated
      obtain ⟨⟨_, after⟩, inner, same⟩ := bind_ok step
      cases same
      cases status with
      | error error => cases populated
      | ok done =>
          obtain ⟨rebuilt, isFinal, later⟩ := ih populated
          refine ⟨rebuilt, isFinal, ?_⟩
          simp only [rebuildIvf, read, bind, Except.bind, inner]
          exact later

theorem rebuildIvf_total (path : Bytes) (shows_ : collection.Shows allocator view)
    (named : collection.records.find? [] = none) (params : IndexParams) :
    ∃ rebuilt, rebuildIvf path allocator collection collection.records.entries
        (IvfIndex.new collection.config.dimensionality collection.config.metric params) =
          .ok (.ok rebuilt) ∧
      (Index.ivf rebuilt).Sound collection.config.dimensionality collection.config.metric ∧
      Mirrors (.ivf rebuilt) view := by
  obtain ⟨sound, empty⟩ := newIndex_sound collection.config .ivf params
  obtain ⟨final, built, soundFinal, _, vectors⟩ := populate_total (ExactLine.host []) shows_ named
    collection.records.entries
    (fun entry member => (OrderedMap.find_eq_some_iff _ _ _).mpr member) sound
  obtain ⟨rebuilt, isFinal, result⟩ := rebuildIvf_of_populate (ExactLine.host []) path _ built
  rw [isFinal] at soundFinal vectors
  refine ⟨rebuilt, result, soundFinal, ?_⟩
  exact mirrors_of_populated shows_ empty vectors

theorem readIndex_total (path : Bytes) (shows_ : collection.Shows allocator view)
    (named : collection.records.find? [] = none) (region : Bytes) (type : IndexType) :
    ∃ outcome, readIndex path allocator collection region type = .ok outcome := by
  cases type with
  | none => exact ⟨_, rfl⟩
  | hnsw =>
      cases parsed : HnswIndex.deserialize collection.config.dimensionality
          collection.config.metric region (vectorFor allocator collection) with
      | none => exact ⟨_, by simp only [readIndex, parsed]; rfl⟩
      | some index => exact ⟨_, by simp only [readIndex, parsed]; rfl⟩
  | ivf =>
      cases parsed : readIvf path region with
      | error error => exact ⟨_, by simp only [readIndex, parsed]; rfl⟩
      | ok params =>
          obtain ⟨rebuilt, result, _⟩ := rebuildIvf_total path shows_ named params
          exact ⟨_, by simp only [readIndex, parsed, bind, Except.bind, result]; rfl⟩

end Rebuild

end VectorVault.PersistenceManager
