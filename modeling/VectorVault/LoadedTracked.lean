import VectorVault.CollectionTracked
import VectorVault.EngineConfiguration
import VectorVault.LoadedMembership

/-! A loaded index holds nothing that is not stored.

So it is in every collection of a run, whatever files were loaded. -/

namespace VectorVault

open Snapshot Collection

namespace HnswIndex

variable {region : HnswRegion} {vectorFor : RecordId → Option (List F32)}
  (dimensionality : UInt32) (metric : DistanceMetric)

theorem load_live {node : HnswNode}
    (member : node ∈ (region.load dimensionality metric vectorFor).nodes) :
    ∃ stored ∈ region.nodes, node = stored.load ((vectorFor stored.id).getD []) := by
  rw [load_nodes] at member
  obtain ⟨stored, inside, same⟩ := List.mem_map.mp member
  exact ⟨stored, inside, same.symm⟩

theorem load_consistent (fits : region.Fits) (accepted : region.Accepted vectorFor) :
    (region.load dimensionality metric vectorFor).Consistent := by
  have fixed := load_fixed dimensionality metric vectorFor region
  constructor
  · exact load_roster_sound dimensionality metric accepted
  · have alive : ∀ entry ∈ (region.load dimensionality metric vectorFor).roster.entries,
        Roster.Live entry = true := by
      intro entry member
      obtain ⟨node, inside, same⟩ := List.mem_map.mp member
      obtain ⟨stored, _, isNode⟩ := load_live dimensionality metric inside
      rw [← same, isNode]
      rfl
    rw [Roster.liveCount, List.countP_eq_length.mpr alive]
    simp only [roster, List.length_map, load_nodes, HnswRegion.nodesOf]
    rfl
  · intro node member
    obtain ⟨stored, inside, isNode⟩ := load_live dimensionality metric member
    rw [isNode]
    exact (fits.nodes stored inside).topLayer
  · rw [fixed.1]
    split
    · decide
    · next large =>
        rw [UInt32.lt_iff_toNat_lt] at large
        exact not_lt.mp large
  · rw [fixed.2.2.1]
    split
    · decide
    · next positive =>
        rw [UInt32.lt_iff_toNat_lt] at positive
        exact not_lt.mp positive

theorem load_vectorOf (accepted : region.Accepted vectorFor) {id : RecordId} {vec : List F32}
    (held : (region.load dimensionality metric vectorFor).roster.vectorOf id = some vec) :
    vectorFor id = some vec := by
  have sound := load_roster_sound dimensionality metric accepted
  obtain ⟨entry, member, named, _, isVec⟩ := (sound.vectorOf_iff id vec).mp held
  obtain ⟨node, inside, same⟩ := List.mem_map.mp member
  obtain ⟨stored, there, isNode⟩ := load_live dimensionality metric inside
  obtain ⟨components, resolved⟩ := accepted.resolved stored there
  have isId : stored.id = id := by
    rw [← named, ← same, isNode]
    rfl
  rw [← isVec, ← same, isNode, ← isId, resolved]
  rfl

end HnswIndex

namespace PersistenceManager

variable {path : Bytes} {allocator : MemoryAllocator} {file : SnapshotFile} {tag : Nat}
  {collection : Collection} {view : OrderedMap RecordId RecordView} {whole : Prop}

theorem vectorFor_shown (shows_ : collection.Shows allocator view) {id : RecordId}
    {components : List F32} (resolved : vectorFor allocator collection id = some components) :
    (view.find? id).map RecordView.vector = some components := by
  obtain ⟨slot, found, read⟩ := Option.bind_eq_some_iff.mp resolved
  obtain ⟨vec, computed, known⟩ := shows_.slot found
  rw [computed] at read
  rw [known]
  exact read

theorem graph_agrees {before : Collection} {region : HnswRegion} {index : HnswIndex}
    {dimensionality : UInt32} {metric : DistanceMetric} (shows_ : before.Shows allocator view)
    (accepted : region.Accepted (vectorFor allocator before))
    (isIndex : index = region.load dimensionality metric (vectorFor allocator before))
    (covers : whole → ∀ id slot, before.records.find? id = some slot →
      ∃ vec, index.roster.vectorOf id = some vec) (id : RecordId) :
    Agrees whole (index.roster.vectorOf id) ((view.find? id).map RecordView.vector) := by
  cases held : index.roster.vectorOf id with
  | some vec =>
      rw [isIndex] at held
      have resolved := HnswIndex.load_vectorOf dimensionality metric accepted held
      exact Or.inl (vectorFor_shown shows_ resolved).symm
  | none =>
      by_cases isWhole : whole
      · left
        cases found : before.records.find? id with
        | none => rw [shows_.absent found, Option.map_none]
        | some slot =>
            obtain ⟨vec, live⟩ := covers isWhole id slot found
            rw [held] at live
            cases live
      · exact Or.inr ⟨isWhole, rfl⟩

theorem load_tracked (loaded : load path allocator file tag = .ok (.ok collection))
    (covers : whole → Covers collection) :
    ∃ view, collection.Shows allocator view ∧ collection.Tracked whole view := by
  obtain ⟨preamble, records, reader, stages⟩ := load_ok loaded
  obtain ⟨view, shows_⟩ := stages.shows
  have ignored : collection.ignoredFailures = 0 := by
    rw [stages.result]
    rfl
  refine ⟨view, shows_, ?_⟩
  have index := stages.indexRead
  generalize isType : collection.indexType = type at index
  generalize held : collection.index = isIndex at index
  cases index with
  | none => exact tracked_of_none held isType ignored
  | @hnsw graph read =>
      obtain ⟨region, written, fits, accepted, isLoad⟩ :=
        HnswIndex.deserialize_some stages.region_small read
      apply tracked_of_index held isType _ _ ignored
      · rw [isLoad]
        exact ⟨HnswIndex.load_consistent _ _ fits accepted,
          (HnswIndex.load_fixed _ _ _ _).2.2.2.2.2.1⟩
      · apply graph_agrees shows_ accepted isLoad
        intro isWhole id slot found
        exact (covers isWhole (.hnsw graph) held id).mpr ⟨slot, found⟩
  | ivf _ built =>
      obtain ⟨rebuilt, result, sound, mirrors⟩ := rebuildIvf_total path shows_ stages.named _
      rw [built] at result
      cases result
      exact tracked_of_index held isType sound.consistent (fun id => Or.inl (mirrors id)) ignored

end PersistenceManager

namespace World

variable {D : Type} [FloatOrder D] {host : Host D} {world after : World}

theorem run_tracked {capacity : UInt64} {garbage : Nat → UInt8} {commands : List Command}
    {statuses : List Status} (done : (new capacity garbage).run host commands = .ok (statuses, world)) :
    world.engine.Owned ∧ world.engine.Configured ∧
      world.engine.Each (fun collection view => collection.Tracked False view) := by
  have ⟨owned, each⟩ := run_each new_tracked
    (fun _ _ _ _ _ operated sound stored shows_ tracked =>
      operated.tracked sound stored shows_ tracked)
    (fun _ _ _ _ _ loaded =>
      PersistenceManager.load_tracked loaded False.elim) done
  exact ⟨owned, (run_configured done).2, each⟩

end World

end VectorVault
