import VectorVault.SnapshotRoundTrip

/-! Saving a collection and loading it again.

The loaded collection answers as the saved one, and saves to the same bytes. -/

namespace VectorVault

open Snapshot Collection

namespace IvfIndex

variable {index after : IvfIndex} {id : RecordId} {vec : List F32} {status : Status}

theorem add_settings (added : index.add id vec = .ok (status, after)) :
    after.settings = index.settings := by
  unfold add at added
  split at added
  · cases added
    rfl
  · split at added
    · obtain ⟨_, _, done⟩ := bind_ok added
      cases done
      rfl
    · cases added
      rfl

end IvfIndex

namespace PersistenceManager

variable {allocator : MemoryAllocator} {collection before : Collection}
  {view : OrderedMap RecordId RecordView} {whole : Prop}

section Index

theorem rebuildIvf_settings {path : Bytes} (entries : List (RecordId × RecordSlot))
    {index rebuilt : IvfIndex}
    (done : rebuildIvf path allocator collection entries index = .ok (.ok rebuilt)) :
    rebuilt.settings = index.settings := by
  induction entries generalizing index with
  | nil =>
      cases done
      rfl
  | cons entry rest ih =>
      obtain ⟨_, _, done⟩ := bind_ok done
      obtain ⟨⟨status, next⟩, added, done⟩ := bind_ok done
      cases status with
      | error error => cases done
      | ok filled => exact (ih done).trans (IvfIndex.add_settings added)

theorem readIvf_written (path : Bytes) (index : IvfIndex) :
    readIvf path index.serialize = .ok { nlist := index.requestedNlist, seed := index.seed } := by
  have small : index.serialize.length < word := by
    simp only [IvfIndex.serialize, List.length_append, length_putU32, length_putU64]
    decide
  have left := ByteReader.left_new index.serialize small
  have nlist := inverse_u32.forward (ByteReader.new index.serialize) index.requestedNlist _ trivial
    left
  have rest := nlist.2
  rw [← List.append_nil (putU64 index.seed)] at rest
  have seed := inverse_u64.forward _ index.seed [] trivial rest
  simp only [readIvf, nlist.1, seed.1]
  rw [require_passed _ ⟨seed.2.1, seed.2.remaining⟩]
  rfl

theorem vectorFor_eq (shows_ : before.Shows allocator view) (id : RecordId) :
    vectorFor allocator before id = (view.find? id).map RecordView.vector := by
  cases found : before.records.find? id with
  | none =>
      rw [vectorFor, found, shows_.absent found]
      rfl
  | some slot =>
      obtain ⟨vec, read, known⟩ := shows_.slot found
      rw [vectorFor, found, known, Option.bind_some, read]
      rfl

theorem live_stored {graph : HnswIndex} (tracked : collection.Tracked whole view)
    (held : collection.index = some (.hnsw graph)) {node : HnswNode} {number : Nat}
    (member : (node, number) ∈ graph.liveNodes) :
    ∃ record, view.find? node.id = some record := by
  have live := (HnswIndex.mem_liveNodes node number).mp member
  have sound := (tracked.consistent _ held).roster
  have known : (Index.hnsw graph).roster.vectorOf node.id = some node.vector := by
    apply (sound.vectorOf_iff node.id node.vector).mpr
    exact ⟨HnswIndex.entryOf node, List.mem_of_getElem? (HnswIndex.roster_get live.1), rfl, live.2,
      rfl⟩
  rcases tracked.agrees _ held node.id with same | missing
  · rw [known] at same
    obtain ⟨record, found, _⟩ := Option.map_eq_some_iff.mp same.symm
    exact ⟨record, found⟩
  · rw [known] at missing
    cases missing.2

theorem graph_restored {graph : HnswIndex} (tracked : collection.Tracked whole view)
    (held : collection.index = some (.hnsw graph)) (numbered : graph.nodes.length < 2 ^ 31)
    (ids : ∀ id record, view.find? id = some record → id.length < 2 ^ 32)
    (small : graph.serialize.length < word) (dimensionality : UInt32) (metric : DistanceMetric)
    {lookup : RecordId → Option (List F32)}
    (supplied : ∀ id, lookup id = (view.find? id).map RecordView.vector) :
    HnswIndex.deserialize dimensionality metric graph.serialize lookup =
      some (graph.reloaded dimensionality metric lookup) := by
  have writable := HnswIndex.Consistent.writable (tracked.consistent _ held).table
  have short : ∀ node number, (node, number) ∈ graph.liveNodes → node.id.length < 2 ^ 32 := by
    intro node number member
    obtain ⟨record, found⟩ := live_stored tracked held member
    exact ids node.id record found
  have resolves : ∀ node number, (node, number) ∈ graph.liveNodes →
      ∃ components, lookup node.id = some components := by
    intro node number member
    obtain ⟨record, found⟩ := live_stored tracked held member
    exact ⟨record.vector, by rw [supplied, found, Option.map_some]⟩
  exact HnswIndex.deserialize_load (HnswIndex.canonicalForm_fits writable numbered short)
    (HnswIndex.canonicalForm_accepted writable numbered resolves) small

/-- How the index of a loaded collection comes from the one that was saved. -/
inductive Restored (view : OrderedMap RecordId RecordView) (dimensionality : UInt32)
    (metric : DistanceMetric) : Option Index → Option Index → Prop where
  | none : Restored view dimensionality metric none none
  | hnsw {graph : HnswIndex} {lookup : RecordId → Option (List F32)}
      (supplied : ∀ id, lookup id = (view.find? id).map RecordView.vector) :
      Restored view dimensionality metric (some (.hnsw graph))
        (some (.hnsw (graph.reloaded dimensionality metric lookup)))
  | ivf {index rebuilt : IvfIndex} (nlist : rebuilt.requestedNlist = index.requestedNlist)
      (seed : rebuilt.seed = index.seed) (mirrors : Mirrors (.ivf rebuilt) view)
      (sound : (Index.ivf rebuilt).Sound dimensionality metric) :
      Restored view dimensionality metric (some (.ivf index)) (some (.ivf rebuilt))

theorem readIndex_restored (path : Bytes) (tracked : collection.Tracked whole view)
    (numbered : collection.Numbered)
    (ids : ∀ id record, view.find? id = some record → id.length < 2 ^ 32)
    (small : collection.indexBlob.length < word) (shows_ : before.Shows allocator view)
    (named : before.records.find? [] = none) :
    ∃ index, readIndex path allocator before collection.indexBlob collection.indexType =
        .ok (.ok index) ∧
      Restored view before.config.dimensionality before.config.metric collection.index index := by
  have typed := tracked.typed
  cases held : collection.index with
  | none =>
      rw [held] at typed
      rw [typed]
      exact ⟨_, rfl, .none⟩
  | some index =>
      rw [held] at typed
      cases index with
      | hnsw graph =>
          have isType : collection.indexType = .hnsw := typed
          have blob : collection.indexBlob = graph.serialize := by
            simp only [indexBlob, held, isType]
            rfl
          rw [blob] at small ⊢
          have supplied := vectorFor_eq shows_
          have read := graph_restored tracked held (numbered graph held) ids small
            before.config.dimensionality before.config.metric supplied
          refine ⟨_, ?_, .hnsw supplied⟩
          rw [isType]
          simp only [readIndex, read]
          rfl
      | ivf index =>
          have isType : collection.indexType = .ivf := typed
          have blob : collection.indexBlob = index.serialize := by
            simp only [indexBlob, held, isType]
            rfl
          obtain ⟨rebuilt, result, sound, mirrors⟩ := rebuildIvf_total path shows_ named
            { nlist := index.requestedNlist, seed := index.seed }
          have settings := rebuildIvf_settings _ result
          refine ⟨_, ?_, .ivf (congrArg (fun parts => parts.2.2.1) settings)
            (congrArg (fun parts => parts.2.2.2) settings) mirrors sound⟩
          rw [isType, blob]
          simp only [readIndex, readIvf_written, result, bind, Except.bind]
          rfl

end Index

section Load

/-- What a loaded collection has in common with the one that was saved. -/
structure SameCollection (allocator : MemoryAllocator) (view : OrderedMap RecordId RecordView)
    (collection loaded : Collection) : Prop where
  config : loaded.config = collection.config
  type : loaded.indexType = collection.indexType
  count : loaded.recordCount = view.size
  keys : loaded.records.size = view.size
  shows : loaded.Shows allocator view
  index : Restored view collection.config.dimensionality collection.config.metric
    collection.index loaded.index
  ignored : loaded.ignoredFailures = 0

theorem load_restored (valid : collection.config.Valid)
    (unnamed : collection.records.find? [] = none) (shows_ : collection.Shows allocator view)
    (tracked : collection.Tracked whole view) (fits : collection.FieldsFit)
    (numbered : collection.Numbered) {content : FileContent}
    (encoded : encode (collection.captured view) = .ok content.bytes)
    (small : content.bytes.length < 2 ^ 46) (path : Bytes) (other : MemoryAllocator) (tag : Nat) :
    ∃ loaded, load path other (.regular content) tag = .ok (.ok loaded) ∧
      SameCollection other view collection loaded := by
  have encodable := captured_encodable valid unnamed shows_ tracked fits
  obtain ⟨data, isData⟩ : ∃ data, data = collection.captured view := ⟨_, rfl⟩
  rw [← isData] at encodable encoded
  have records : data.records = recordsOf view := by rw [isData]; rfl
  have isImage := written_image encodable encoded
  have fitsBody : headerSize + (bodyOf data).length < 2 ^ 46 := by
    rw [← length_fileOf (writtenHeader data) (bodyOf data), ← isImage]
    exact small
  have exact_ := writtenHeader_exact encodable fitsBody
  have blob : data.indexBlob = collection.indexBlob := by rw [isData]; rfl
  rcases load_written path encodable isImage small with
    ⟨reader, next, preamble, directory, before⟩
  have region := indexRegion_written encodable isImage small reader
  rw [blob] at region
  obtain ⟨read, isRead⟩ : ∃ read, read = Preamble.collection ⟨content.bytes, writtenHeader data,
      data.config.metric, data.indexType, data.config.name, reader⟩ tag
        (recordsAt (writtenHeader data) data.records) := ⟨_, rfl⟩
  have config : read.config = collection.config := by
    rw [isRead, isData]
    rfl
  have readRecords : read.records = recordsAt (writtenHeader data) data.records := by
    rw [isRead]
    rfl
  have dimensionality : read.config.dimensionality = data.config.dimensionality := by
    rw [config, isData]
    rfl
  have mapped : read.mappedRegion = content.bytes := by
    rw [isRead]
    rfl
  have dropped : content.bytes.drop headerSize = bodyOf data := by
    rw [isImage, fileOf_drop]
  have shown : read.Shows other view :=
    written_shows encodable records readRecords (fun _ => dimensionality) mapped dropped
      (fun number less => (exact_.position fitsBody encodable less).2)
  have readNamed : read.records.find? [] = none := (shown.find_iff []).mp (shows_.absent unnamed)
  have ids : ∀ id record, view.find? id = some record → id.length < 2 ^ 32 := by
    intro id record known
    cases found : collection.records.find? id with
    | none =>
        rw [shows_.absent found] at known
        cases known
    | some slot => exact (fits id slot found).1
  have blobSmall : collection.indexBlob.length < word := by
    have body := length_bodyOf encodable
    rw [← blob]
    simp only [word]
    omega
  obtain ⟨index, indexed, restored⟩ :=
    readIndex_restored path tracked numbered ids blobSmall shown readNamed
  have type : data.indexType = collection.indexType := by rw [isData]; rfl
  rw [config] at restored
  refine ⟨{ read with index := index }, ?_, config, ?_, ?_, ?_, ?_, restored, ?_⟩
  · rw [load, preamble]
    simp only [directory, if_neg before, bind, Except.bind]
    rw [region, ← isRead, type, indexed]
    rfl
  · rw [← type, isRead]
    rfl
  · rw [shown.size, isRead]
    rfl
  · exact shown.size.symm
  · exact shown.kept ⟨rfl, rfl, rfl⟩ rfl (fun _ _ _ => rfl)
  · rw [isRead]
    rfl

end Load

end PersistenceManager

end VectorVault
