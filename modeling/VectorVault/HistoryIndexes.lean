import VectorVault.EngineHistories
import VectorVault.LoadedTracked
import VectorVault.SnapshotRoundTrip
import VectorVault.ExactLine

/-! The index of a collection in a history of own files.

It holds what is stored, whatever was removed, batched, rebuilt or reloaded. -/

namespace VectorVault

open Snapshot Collection MemoryAllocator

namespace HnswIndex

theorem length_liveNodes (index : HnswIndex) : index.liveNodes.length = index.roster.liveCount := by
  have counted : index.roster.liveCount = index.nodes.countP (fun node => !node.deleted) := by
    rw [Roster.liveCount, roster, List.countP_map]
    rfl
  calc
    _ = (index.nodes.zipIdx.filter (fun entry => !entry.1.deleted)).length := by
      rw [liveNodes, FloatOrder.length_sortBy]
    _ = index.nodes.zipIdx.countP ((fun node => !node.deleted) ∘ Prod.fst) := by
      rw [List.countP_eq_length_filter]
      rfl
    _ = (index.nodes.zipIdx.map Prod.fst).countP (fun node => !node.deleted) := by
      rw [List.countP_map]
    _ = index.roster.liveCount := by rw [List.zipIdx_map_fst, counted]

end HnswIndex

variable {allocator : MemoryAllocator} {collection : Collection}
  {view : OrderedMap RecordId RecordView} {content : FileContent}

theorem Collection.Tracked.mirrors (tracked : collection.Tracked True view) {index : Index}
    (held : collection.index = some index) : Mirrors index view := by
  intro id
  rcases tracked.agrees index held id with same | ⟨missing, _⟩
  · exact same
  · exact (missing trivial).elim

theorem Collection.Tracked.size (tracked : collection.Tracked True view) {index : Index}
    (held : collection.index = some index) : index.size = view.size := by
  have consistent := tracked.consistent index held
  rw [consistent.size]
  exact consistent.roster.liveCount_eq view RecordView.vector (tracked.mirrors held)

namespace PersistenceManager

/-- A written file whose graph has as many nodes as the file has records. -/
def CountsNodes (content : FileContent) : Prop :=
  ∃ data, encode data = .ok content.bytes ∧
    (data.indexType = .hnsw → nodeCount data.indexBlob = data.records.length)

theorem image_countsNodes (shows_ : collection.Shows allocator view)
    (tracked : collection.Tracked True view) (numbered : collection.Numbered)
    (isImage : image allocator collection = .ok content.bytes) : CountsNodes content := by
  rw [image_captured shows_] at isImage
  refine ⟨_, isImage, ?_⟩
  intro isHnsw
  have type : collection.indexType = .hnsw := isHnsw
  have typed := tracked.typed
  rw [type] at typed
  cases held : collection.index with
  | none =>
      rw [held] at typed
      cases typed
  | some index =>
      rw [held] at typed
      cases index with
      | ivf index => cases typed
      | hnsw graph =>
          have blob : (collection.captured view).indexBlob = graph.canonicalForm.put := by
            simp only [captured, indexBlob, held, type]
            rfl
          have count : graph.canonicalForm.nodes.length = view.size := by
            calc
              _ = graph.liveNodes.length := HnswIndex.canonicalForm_length graph
              _ = graph.roster.liveCount := graph.length_liveNodes
              _ = (Index.hnsw graph).size := (tracked.consistent _ held).size.symm
              _ = view.size := tracked.size held
          have fewer : graph.canonicalForm.nodes.length ≤ graph.nodes.length := by
            rw [HnswIndex.canonicalForm_length]
            exact HnswIndex.liveNodes_length_le graph
          have small := numbered graph held
          have short : graph.canonicalForm.put.length < word := by
            obtain ⟨vectors, _, isBytes⟩ := encode_ok isImage
            have lengths := congrArg List.length isBytes
            have sized := content.sized
            rw [length_fileOf, List.length_append, blob] at lengths
            simp only [word]
            omega
          rw [blob, nodeCount_put _ (by omega) short, count]
          exact (length_recordsOf view).symm

theorem CountsNodes.covers {path : Bytes} {tag : Nat} (counts : CountsNodes content)
    (loaded : load path allocator (.regular content) tag = .ok (.ok collection)) :
    Covers collection := by
  obtain ⟨data, encoded, nodes⟩ := counts
  obtain ⟨vectors, _, isBytes⟩ := encode_ok encoded
  obtain ⟨preamble, _, _, stages⟩ := load_ok loaded
  obtain ⟨other, isOther, isContent⟩ := stages.accepted.content
  cases isOther
  have sized := content.sized
  have lengths := congrArg List.length isBytes
  rw [length_fileOf] at lengths
  have header : preamble.header = headerOf data vectors := by
    have read := stages.accepted.header
    rw [← isContent, isBytes, readHeader_fileOf _ _ _ (by
      rw [length_fileOf]
      simp only [word]
      omega)] at read
    exact (Except.ok.inj read).symm
  apply ((load_covers_iff stages.parsed loaded).2 collection rfl).mpr
  intro isHnsw
  have type : data.indexType = .hnsw := by
    have read := stages.accepted.type
    rw [header, show (headerOf data vectors).indexType = data.indexType.toByte from rfl,
      IndexType.ofByte_toByte, isHnsw] at read
    exact Option.some.inj read
  obtain ⟨offset, length⟩ := @headerOf_index data vectors (by simp only [word]; omega)
  have region : preamble.indexRegion = data.indexBlob := by
    rw [Preamble.indexRegion, header, offset, length, ← isContent, isBytes, ← List.drop_drop,
      fileOf_drop, List.drop_left, List.take_length]
  have records : data.records.length < 2 ^ 64 := by
    have directory := length_putDirectory data.records
    rw [List.length_append, List.length_append] at lengths
    simp only [leading, List.length_append] at lengths
    omega
  rw [region, nodes type, header]
  exact (UInt64.toNat_ofNat_of_lt' records).symm

end PersistenceManager

namespace World

open PersistenceManager

variable {D : Type} [FloatOrder D] {host : Host D} {world : World} {name : Bytes}

def Numbering (_ : MemoryAllocator) (collection : Collection) : Prop := collection.Numbered

instance (allocator : MemoryAllocator) (collection : Collection) :
    Decidable (Numbering allocator collection) :=
  inferInstanceAs (Decidable collection.Numbered)

theorem History.tracked (history : History host Numbering world) :
    world.engine.Owned ∧ world.engine.Configured ∧
      world.engine.Each (fun collection view => collection.Tracked True view) ∧
        world.Files CountsNodes := by
  apply history.keeps new_tracked
  · intro allocator collection next allocator' view operated sound stored shows_ tracked
    exact operated.tracked sound stored shows_ tracked
  · intro allocator collection view content _ _ shows_ tracked numbered isImage
    exact image_countsNodes shows_ tracked numbered isImage
  · intro path allocator content tag collection counts loaded
    exact load_tracked loaded (fun _ => counts.covers loaded)

theorem History.index_agrees (history : History host Numbering world)
    (found : world.engine.collections.find? name = some collection) {index : Index}
    (held : collection.index = some index) :
    collection.recordCount = collection.records.size ∧
      (∀ id, (∃ vec, index.roster.vectorOf id = some vec) ↔
        ∃ slot, collection.records.find? id = some slot) ∧
      (∀ id vec, index.roster.vectorOf id = some vec →
        ∃ metadata, collection.get world.engine.allocator id = .ok (.ok ⟨vec, metadata⟩)) ∧
      index.size = collection.recordCount ∧ collection.ignoredFailures = 0 := by
  obtain ⟨owned, _, each, _⟩ := history.tracked
  obtain ⟨view, shows_, tracked⟩ := each name collection found
  have counted := (owned.stored name collection found).counted
  have mirrors := tracked.mirrors held
  refine ⟨counted, ?_, ?_, ?_, tracked.ignored trivial⟩
  · intro id
    rw [mirrors id]
    cases isFound : collection.records.find? id with
    | none =>
        rw [shows_.absent isFound]
        simp
    | some slot =>
        obtain ⟨vec, _, known⟩ := shows_.slot isFound
        rw [known]
        exact iff_of_true ⟨vec, rfl⟩ ⟨slot, rfl⟩
  · intro id vec inside
    rw [mirrors id] at inside
    obtain ⟨record, known, isVector⟩ := Option.map_eq_some_iff.mp inside
    refine ⟨record.metadata, ?_⟩
    rw [shows_ id, known, ← isVector]
  · rw [tracked.size held, shows_.size, counted]

def reloadedRun : List Command :=
  [.createCollection [99] 1 0, .buildIndex [99] .hnsw { m := 2, efConstruction := 2 },
    .insert [99] [1] [0] none, .insert [99] [2] [1] none, .remove [99] [1],
    .saveCollection [99] [0] [1] .published, .deleteCollection [99] false, .loadCollection [0],
    .insert [99] [1] [2] none]

theorem index_agrees_of_reload :
    ∃ (world : World) (collection : Collection) (index : Index),
      History (ExactLine.host []) Numbering world ∧
        world.engine.collections.find? [99] = some collection ∧
        collection.index = some index ∧
        collection.recordCount = collection.records.size ∧
        (∀ id, (∃ vec, index.roster.vectorOf id = some vec) ↔
          ∃ slot, collection.records.find? id = some slot) ∧
        (∀ id vec, index.roster.vectorOf id = some vec →
          ∃ metadata, collection.get world.engine.allocator id = .ok (.ok ⟨vec, metadata⟩)) ∧
        index.size = collection.recordCount ∧ collection.ignoredFailures = 0 := by
  have reaches : ∃ world collection, History (ExactLine.host []) Numbering world ∧
      world.engine.collections.find? [99] = some collection ∧ collection.index.isSome = true :=
    exists_of_followed (show ((new 4096 (fun _ => 0)).follow (ExactLine.host []) Numbering
      reloadedRun).any (fun world => (world.engine.collections.find? [99]).any
        (fun collection => collection.index.isSome)) = true by decide +kernel)
  obtain ⟨world, collection, history, found, indexed⟩ := reaches
  obtain ⟨index, held⟩ := Option.isSome_iff_exists.mp indexed
  exact ⟨world, collection, index, history, found, held, history.index_agrees found held⟩

end World

end VectorVault
