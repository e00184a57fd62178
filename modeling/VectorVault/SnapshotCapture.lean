import VectorVault.CollectionTracked
import VectorVault.SnapshotBody

/-! What a snapshot captures of a collection.

It is determined by the view the collection shows and by the bytes its index
writes, wherever the vectors lie. -/

namespace VectorVault

open Snapshot Collection

def recordsOf (view : OrderedMap RecordId RecordView) : List SnapshotRecord :=
  view.entries.map (fun entry => ⟨entry.1, entry.2.vector, entry.2.metadata⟩)

theorem recordsOf_get (view : OrderedMap RecordId RecordView) {number : Nat}
    {record : SnapshotRecord} (found : (recordsOf view)[number]? = some record) :
    view.find? record.id = some ⟨record.vector, record.metadata⟩ := by
  rw [recordsOf, List.getElem?_map] at found
  obtain ⟨entry, there, same⟩ := Option.map_eq_some_iff.mp found
  rw [OrderedMap.find_eq_some_iff, ← same]
  exact List.mem_of_getElem? there

theorem recordsOf_of_find (view : OrderedMap RecordId RecordView) {id : RecordId}
    {record : RecordView} (known : view.find? id = some record) :
    ∃ number : Nat, (recordsOf view)[number]? = some ⟨id, record.vector, record.metadata⟩ := by
  have member := (OrderedMap.find_eq_some_iff _ _ _).mp known
  obtain ⟨number, found⟩ := List.getElem?_of_mem member
  exact ⟨number, by rw [recordsOf, List.getElem?_map, found, Option.map_some]⟩

theorem recordsOf_ids (view : OrderedMap RecordId RecordView) :
    (recordsOf view).map SnapshotRecord.id = view.keys := by
  rw [recordsOf, List.map_map]
  rfl

theorem length_recordsOf (view : OrderedMap RecordId RecordView) :
    (recordsOf view).length = view.size := by
  rw [recordsOf, List.length_map, OrderedMap.size]

variable {allocator : MemoryAllocator} {collection : Collection}
  {view : OrderedMap RecordId RecordView}

def Collection.indexBlob (collection : Collection) : Bytes :=
  match collection.index with
  | some index => if collection.indexType ≠ .none then index.serialize else []
  | none => []

def Collection.captured (collection : Collection) (view : OrderedMap RecordId RecordView) :
    CollectionSnapshotData :=
  ⟨collection.config, collection.indexType, recordsOf view, collection.indexBlob⟩

theorem snapshotRecords_eq (entries : List (RecordId × RecordSlot))
    (readable : ∀ entry ∈ entries, ∃ vec, collection.components allocator entry.2 = .ok vec) :
    collection.snapshotRecords allocator entries = .ok (entries.map (fun entry =>
      ⟨entry.1, (collection.viewOf allocator entry.2).vector, entry.2.metadata⟩)) := by
  induction entries with
  | nil => rfl
  | cons entry rest ih =>
      obtain ⟨id, slot⟩ := entry
      obtain ⟨vec, read⟩ := readable (id, slot) List.mem_cons_self
      have later := ih (fun other member => readable other (List.mem_cons_of_mem _ member))
      simp only at read
      simp only [snapshotRecords, read, later, bind, Except.bind, List.map_cons, viewOf_eq read]
      rfl

theorem snapshotData_captured (shows_ : collection.Shows allocator view) :
    collection.snapshotData allocator = .ok (collection.captured view) := by
  have readable : ∀ entry ∈ collection.records.entries,
      ∃ vec, collection.components allocator entry.2 = .ok vec := by
    intro entry member
    obtain ⟨vec, read, _⟩ := shows_.slot ((OrderedMap.find_eq_some_iff _ _ _).mpr member)
    exact ⟨vec, read⟩
  have records : recordsOf view = collection.records.entries.map (fun entry =>
      ⟨entry.1, (collection.viewOf allocator entry.2).vector, entry.2.metadata⟩) := by
    rw [shows_.eq, recordsOf, OrderedMap.mapValues, List.map_map]
    rfl
  simp only [snapshotData, snapshotRecords_eq _ readable, bind, Except.bind, captured, records]
  rfl

theorem image_captured (shows_ : collection.Shows allocator view) :
    PersistenceManager.image allocator collection =
      PersistenceManager.encode (collection.captured view) := by
  simp only [PersistenceManager.image, snapshotData_captured shows_, bind, Except.bind]

/-- The identifiers and the metadata of a collection fit their length fields. -/
def Collection.FieldsFit (collection : Collection) : Prop :=
  ∀ id slot, collection.records.find? id = some slot →
    id.length < 2 ^ 32 ∧ (putMetadata slot.metadata).length < 2 ^ 32

def Collection.Numbered (collection : Collection) : Prop :=
  ∀ graph, collection.index = some (.hnsw graph) → graph.nodes.length < 2 ^ 31

instance (collection : Collection) : Decidable collection.FieldsFit :=
  decidable_of_iff (∀ entry ∈ collection.records.entries,
      entry.1.length < 2 ^ 32 ∧ (putMetadata entry.2.metadata).length < 2 ^ 32) <| by
    simp only [Collection.FieldsFit, OrderedMap.find_eq_some_iff, Prod.forall]

instance (collection : Collection) : Decidable collection.Numbered :=
  match held : collection.index with
  | none => .isTrue (fun graph isHeld => by rw [held] at isHeld; cases isHeld)
  | some (.hnsw graph) =>
      decidable_of_iff (graph.nodes.length < 2 ^ 31)
        ⟨fun small other isHeld => by rw [held] at isHeld; cases isHeld; exact small,
          fun numbered => numbered graph held⟩
  | some (.ivf index) => .isTrue (fun graph isHeld => by rw [held] at isHeld; cases isHeld)

theorem serialize_ne_nil (index : Index) : index.serialize ≠ [] := by
  intro empty
  have length := congrArg List.length empty
  cases index with
  | hnsw index =>
      simp only [Index.serialize, HnswIndex.serialize, HnswRegion.put, List.length_append,
        length_putU32, List.length_nil] at length
      omega
  | ivf index =>
      simp only [Index.serialize, IvfIndex.serialize, List.length_append, length_putU32,
        List.length_nil] at length
      omega

theorem captured_encodable {whole : Prop} (valid : collection.config.Valid)
    (named : collection.records.find? [] = none) (shows_ : collection.Shows allocator view)
    (tracked : collection.Tracked whole view) (fits : collection.FieldsFit) :
    (collection.captured view).Encodable := by
  have slots : ∀ record ∈ recordsOf view, ∃ slot,
      collection.records.find? record.id = some slot ∧ slot.metadata = record.metadata ∧
        collection.components allocator slot = .ok record.vector := by
    intro record member
    obtain ⟨number, there⟩ := List.getElem?_of_mem member
    have known := recordsOf_get view there
    cases found : collection.records.find? record.id with
    | none =>
        rw [shows_.absent found] at known
        cases known
    | some slot =>
        obtain ⟨vec, read, shown⟩ := shows_.slot found
        rw [known, Option.some.injEq, RecordView.mk.injEq] at shown
        exact ⟨slot, rfl, shown.2.symm, by rw [read, shown.1]⟩
  constructor
  · exact valid
  · intro record member
    obtain ⟨slot, found, metadata, _⟩ := slots record member
    obtain ⟨id, blob⟩ := fits record.id slot found
    rw [metadata] at blob
    refine ⟨?_, id, blob⟩
    intro empty
    rw [empty, named] at found
    cases found
  · intro record member
    obtain ⟨slot, _, _, read⟩ := slots record member
    exact components_length read
  · change ((recordsOf view).map SnapshotRecord.id).Nodup
    rw [recordsOf_ids]
    exact view.nodup_keys
  · change collection.indexType = .none ↔ collection.indexBlob = []
    have typed := tracked.typed
    cases held : collection.index with
    | none =>
        rw [held] at typed
        simp only [typed, indexBlob, held]
    | some index =>
        rw [held] at typed
        have some_ : collection.indexType ≠ .none := by
          rw [typed]
          cases index <;> exact fun same => by cases same
        simp only [indexBlob, held, some_, ne_eq, not_false_eq_true, if_true, false_iff]
        exact serialize_ne_nil index

end VectorVault
