import VectorVault.RestoredCollection
import VectorVault.LoadedTracked

/-! The image of any reachable collection is accepted.

What is loaded from it answers alike and has the same image again. -/

namespace VectorVault

open Snapshot Collection PersistenceManager

variable {allocator other : MemoryAllocator} {collection loaded : Collection}
  {view : OrderedMap RecordId RecordView} {whole : Prop}

/-- What a collection and one loaded from its image have in common. -/
structure Preserved (allocator : MemoryAllocator) (collection : Collection)
    (other : MemoryAllocator) (loaded : Collection) : Prop where
  config : loaded.config = collection.config
  type : loaded.indexType = collection.indexType
  count : loaded.count = collection.count
  ids : loaded.records.keys = collection.records.keys
  records : ∀ id, loaded.get other id = collection.get allocator id

namespace PersistenceManager

theorem SameCollection.preserved (same : SameCollection other view collection loaded)
    (shows_ : collection.Shows allocator view)
    (counted : collection.recordCount = collection.records.size) :
    Preserved allocator collection other loaded where
  config := same.config
  type := same.type
  count := by
    calc
      _ = view.size := same.count
      _ = collection.records.size := shows_.size
      _ = collection.recordCount := counted.symm
  ids := by rw [same.shows.keys, shows_.keys]
  records id := by rw [same.shows id, shows_ id]

theorem SameCollection.indexBlob (same : SameCollection other view collection loaded)
    (tracked : collection.Tracked whole view) (numbered : collection.Numbered) :
    loaded.indexBlob = collection.indexBlob := by
  have restored := same.index
  unfold Collection.indexBlob
  rw [same.type]
  generalize isIndex : loaded.index = after at restored ⊢
  generalize isHeld : collection.index = held at restored ⊢
  cases restored with
  | none => rfl
  | @hnsw graph lookup supplied =>
      have writable := HnswIndex.Consistent.writable (tracked.consistent _ isHeld).table
      have small := numbered graph isHeld
      have canonical := HnswIndex.canonicalForm_reloaded writable small
        collection.config.dimensionality collection.config.metric lookup
      have serialized : (Index.hnsw (graph.reloaded collection.config.dimensionality
          collection.config.metric lookup)).serialize = (Index.hnsw graph).serialize := by
        simp only [Index.serialize, HnswIndex.serialize, canonical]
      simp only [serialized]
  | @ivf index rebuilt nlist seed mirrors sound =>
      have serialized : (Index.ivf rebuilt).serialize = (Index.ivf index).serialize := by
        simp only [Index.serialize, IvfIndex.serialize, nlist, seed]
      simp only [serialized]

theorem SameCollection.captured (same : SameCollection other view collection loaded)
    (tracked : collection.Tracked whole view) (numbered : collection.Numbered) :
    loaded.captured view = collection.captured view := by
  simp only [Collection.captured, same.config, same.type, same.indexBlob tracked numbered]

end PersistenceManager

namespace World

variable {D : Type} [FloatOrder D] {host : Host D} {world : World} {capacity : UInt64}
  {garbage : Nat → UInt8} {commands : List Command} {statuses : List Status} {name : Bytes}

theorem run_image (done : (new capacity garbage).run host commands = .ok (statuses, world))
    (found : world.engine.collections.find? name = some collection)
    (fits : collection.FieldsFit) (numbered : collection.Numbered) :
    ∃ view bytes, collection.Shows world.engine.allocator view ∧ collection.Tracked False view ∧
      image world.engine.allocator collection = .ok bytes ∧
      ∀ content : FileContent, content.bytes = bytes → content.bytes.length < 2 ^ 46 →
        ∀ path other tag, ∃ loaded, load path other (.regular content) tag = .ok (.ok loaded) ∧
          SameCollection other view collection loaded := by
  obtain ⟨owned, configured, each⟩ := run_tracked done
  obtain ⟨view, shows_, tracked⟩ := each name collection found
  have valid := (configured name collection found).1
  have unnamed := (owned.stored name collection found).named
  have encodable := captured_encodable valid unnamed shows_ tracked fits
  have encoded := encode_written encodable
  refine ⟨view, _, shows_, tracked, (image_captured shows_).trans encoded, ?_⟩
  intro content isImage small path other tag
  rw [← isImage] at encoded
  exact load_restored valid unnamed shows_ tracked fits numbered encoded small path other tag

/-- Saving a collection of any run and loading the image gives it back. -/
theorem run_saved (done : (new capacity garbage).run host commands = .ok (statuses, world))
    (found : world.engine.collections.find? name = some collection)
    (fits : collection.FieldsFit) (numbered : collection.Numbered) :
    ∃ bytes, image world.engine.allocator collection = .ok bytes ∧
      ∀ content : FileContent, content.bytes = bytes → content.bytes.length < 2 ^ 46 →
        ∀ path other tag, ∃ loaded, load path other (.regular content) tag = .ok (.ok loaded) ∧
          Preserved world.engine.allocator collection other loaded := by
  obtain ⟨view, bytes, shows_, _, isImage, loads⟩ := run_image done found fits numbered
  have counted := ((run_tracked done).1.stored name collection found).counted
  refine ⟨bytes, isImage, ?_⟩
  intro content written small path other tag
  obtain ⟨loaded, read, same⟩ := loads content written small path other tag
  exact ⟨loaded, read, same.preserved shows_ counted⟩

/-- Two records with metadata, a graph of them, and a tombstone of a third. -/
def tombstonedRun : List Command :=
  [.createCollection [99] 1 0, .buildIndex [99] .hnsw { m := 2, efConstruction := 2 },
    .insert [99] [1] [0] (some OrderedMap.empty), .insert [99] [2] [1] none,
    .insert [99] [3] [2] (some (OrderedMap.empty.insert [1] (.bool true))), .remove [99] [2]]

/-- The commands come through, and the image of the collection is a small file. -/
def Saves (commands : List Command) : Bool :=
  match (new 4096 (fun _ => 0)).run (ExactLine.host []) commands with
  | .ok (_, world) =>
      match world.engine.collections.find? [99] with
      | some collection =>
          match image world.engine.allocator collection with
          | .ok bytes =>
              decide collection.FieldsFit && decide collection.Numbered &&
                decide (bytes.length < 2 ^ 46)
          | .error _ => false
      | none => false
  | .error _ => false

theorem saves_ok {commands : List Command} (saves : Saves commands = true) :
    ∃ (statuses : List Status) (world : World) (collection : Collection) (content : FileContent),
      (new 4096 (fun _ => 0)).run (ExactLine.host []) commands = .ok (statuses, world) ∧
        world.engine.collections.find? [99] = some collection ∧ collection.FieldsFit ∧
        collection.Numbered ∧ image world.engine.allocator collection = .ok content.bytes ∧
        content.bytes.length < 2 ^ 46 := by
  unfold Saves at saves
  split at saves
  · next statuses world done =>
      split at saves
      · next collection found =>
          split at saves
          · next bytes isImage =>
              rw [Bool.and_eq_true, Bool.and_eq_true, decide_eq_true_eq, decide_eq_true_eq,
                decide_eq_true_eq] at saves
              exact ⟨statuses, world, collection, ⟨bytes, saves.2.trans (by decide)⟩, done, found,
                saves.1.1, saves.1.2, isImage, saves.2⟩
          · cases saves
      · cases saves
  · cases saves

theorem run_saved_of_tombstone :
    ∃ (statuses : List Status) (world : World) (collection loaded : Collection)
      (content : FileContent),
      (new 4096 (fun _ => 0)).run (ExactLine.host []) tombstonedRun = .ok (statuses, world) ∧
        image world.engine.allocator collection = .ok content.bytes ∧
        load [] (MemoryAllocator.new 64 (fun _ => 0)) (.regular content) 1 = .ok (.ok loaded) ∧
        Preserved world.engine.allocator collection (MemoryAllocator.new 64 (fun _ => 0))
          loaded := by
  obtain ⟨statuses, world, collection, content, done, found, fits, numbered, isImage, small⟩ :=
    saves_ok (show Saves tombstonedRun = true by decide +kernel)
  obtain ⟨bytes, encoded, loads⟩ := run_saved done found fits numbered
  rw [isImage] at encoded
  obtain ⟨loaded, read, preserved⟩ :=
    loads content (Except.ok.inj encoded) small [] (MemoryAllocator.new 64 (fun _ => 0)) 1
  exact ⟨statuses, world, collection, loaded, content, done, isImage, read, preserved⟩

/-- What is loaded from the image of a collection of any run has the same image. -/
theorem run_resaved (done : (new capacity garbage).run host commands = .ok (statuses, world))
    (found : world.engine.collections.find? name = some collection)
    (fits : collection.FieldsFit) (numbered : collection.Numbered) :
    ∃ bytes, image world.engine.allocator collection = .ok bytes ∧
      ∀ content : FileContent, content.bytes = bytes → content.bytes.length < 2 ^ 46 →
        ∀ path other tag, ∃ loaded, load path other (.regular content) tag = .ok (.ok loaded) ∧
          image other loaded = .ok bytes := by
  obtain ⟨view, bytes, shows_, tracked, isImage, loads⟩ := run_image done found fits numbered
  refine ⟨bytes, isImage, ?_⟩
  intro content written small path other tag
  obtain ⟨loaded, read, same⟩ := loads content written small path other tag
  refine ⟨loaded, read, ?_⟩
  calc
    _ = encode (loaded.captured view) := image_captured same.shows
    _ = encode (collection.captured view) := by rw [same.captured tracked numbered]
    _ = image world.engine.allocator collection := (image_captured shows_).symm
    _ = .ok bytes := isImage

theorem run_resaved_of_tombstone :
    ∃ (statuses : List Status) (world : World) (collection loaded : Collection)
      (content : FileContent),
      (new 4096 (fun _ => 0)).run (ExactLine.host []) tombstonedRun = .ok (statuses, world) ∧
        image world.engine.allocator collection = .ok content.bytes ∧
        load [] (MemoryAllocator.new 64 (fun _ => 0)) (.regular content) 1 = .ok (.ok loaded) ∧
        image (MemoryAllocator.new 64 (fun _ => 0)) loaded = .ok content.bytes := by
  obtain ⟨statuses, world, collection, content, done, found, fits, numbered, isImage, small⟩ :=
    saves_ok (show Saves tombstonedRun = true by decide +kernel)
  obtain ⟨bytes, encoded, loads⟩ := run_resaved done found fits numbered
  rw [isImage] at encoded
  have same := Except.ok.inj encoded
  obtain ⟨loaded, read, again⟩ :=
    loads content same small [] (MemoryAllocator.new 64 (fun _ => 0)) 1
  exact ⟨statuses, world, collection, loaded, content, done, isImage, read, by rw [again, same]⟩

end World

end VectorVault
