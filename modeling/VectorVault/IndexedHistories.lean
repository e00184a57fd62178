import VectorVault.HistoryIndexes
import VectorVault.RestoredCollection

/-! Sound indexes in histories of own files.

A graph built by the program is well formed, and so is the one read back from
its region. Saving and loading any number of times loses nothing of that. -/

namespace VectorVault

open Snapshot Collection MemoryAllocator

section Operations

variable {D : Type} [FloatOrder D] {host : Host D} {allocator allocator' : MemoryAllocator}
  {collection next : Collection} {view : OrderedMap RecordId RecordView}

theorem Operated.indexed (operated : Operated host allocator collection allocator' next)
    (sound : allocator.Sound) (stored : collection.Stored allocator [])
    (shows_ : collection.Shows allocator view) (indexed : collection.Indexed view) :
    ∃ viewAfter, Advances [] allocator allocator' collection next viewAfter ∧
      next.Indexed viewAfter := by
  cases operated with
  | @insert id vec metadata _ _ _ done =>
      rcases insert_total host allocator indexed id vec metadata with ⟨_, _, _, result, final⟩
      have advances := insert_advances sound stored shows_ done
      rw [done] at result
      cases result
      exact ⟨_, advances, final⟩
  | @insertBatch records _ _ _ done =>
      rcases insertBatch_total host allocator indexed records with ⟨_, _, _, result, final⟩
      have advances := insertBatch_advances sound stored shows_ done
      rw [done] at result
      cases result
      exact ⟨_, advances, final⟩
  | @remove id _ _ _ done =>
      rcases remove_total allocator indexed shows_ id with ⟨_, _, _, result, final⟩
      have advances := remove_advances sound stored shows_ done
      rw [done] at result
      cases result
      exact ⟨_, advances, final⟩
  | @buildIndex type params _ _ done =>
      rcases buildIndex_total host indexed shows_ stored.named type params with
        ⟨_, _, result, final⟩
      have rest := buildIndex_ok done
      rw [done] at result
      cases result
      exact ⟨view, stored.reindexed sound shows_ rest.1 rest.2.1 rest.2.2, final⟩
  | query done =>
      have final := query_indexed indexed done
      rcases queryWith_ok done with unchanged | ⟨_, _, _, _, _, shape⟩
      · rw [unchanged] at final ⊢
        exact ⟨view, stored.advances sound shows_, final⟩
      · rw [shape] at final ⊢
        exact ⟨view, stored.reindexed sound shows_ ⟨rfl, rfl, rfl⟩ rfl rfl, final⟩

end Operations

namespace PersistenceManager

variable {allocator other : MemoryAllocator} {collection loaded : Collection}
  {view : OrderedMap RecordId RecordView} {content : FileContent}

def Storable (allocator : MemoryAllocator) (collection : Collection) : Prop :=
  collection.Numbered ∧ collection.FieldsFit ∧
    ∀ bytes, image allocator collection = .ok bytes → bytes.length < 2 ^ 46

instance (allocator : MemoryAllocator) (collection : Collection) :
    Decidable (Storable allocator collection) :=
  have : Decidable (∀ bytes, image allocator collection = .ok bytes → bytes.length < 2 ^ 46) :=
    match isImage : image allocator collection with
    | .ok bytes =>
        decidable_of_iff (bytes.length < 2 ^ 46)
          ⟨fun small other same => Except.ok.inj same ▸ small, fun small => small bytes rfl⟩
    | .error _ => .isTrue (fun bytes same => by cases same)
  inferInstanceAs (Decidable (_ ∧ _ ∧ _))

def Faithful (content : FileContent) : Prop :=
  ∃ allocator collection view, collection.config.Valid ∧ collection.records.find? [] = none ∧
    collection.Shows allocator view ∧ collection.Indexed view ∧ Storable allocator collection ∧
    image allocator collection = .ok content.bytes

theorem Restored.sound {before after : Option Index} {dimensionality : UInt32}
    {metric : DistanceMetric} (restored : Restored view dimensionality metric before after)
    (sound : ∀ index, before = some index → index.Sound dimensionality metric)
    (numbered : ∀ graph, before = some (.hnsw graph) → graph.nodes.length < 2 ^ 31) :
    ∀ index, after = some index → index.Sound dimensionality metric := by
  intro index held
  cases restored with
  | none => cases held
  | @hnsw graph lookup supplied =>
      cases held
      have old : graph.WellFormed := (sound _ rfl).wellFormed
      have fixed := HnswIndex.load_fixed dimensionality metric lookup graph.canonicalForm
      have wellFormed := HnswIndex.reloaded_wellFormed old (numbered graph rfl) dimensionality
        metric lookup
      exact ⟨wellFormed, fixed.2.2.2.2.2.1, fixed.2.2.2.2.2.2⟩
  | ivf nlist seed mirrors rebuiltSound =>
      cases held
      exact rebuiltSound

theorem load_storable (valid : collection.config.Valid)
    (unnamed : collection.records.find? [] = none) (shows_ : collection.Shows allocator view)
    (indexed : collection.Indexed view) (storable : Storable allocator collection)
    (isImage : image allocator collection = .ok content.bytes) (path : Bytes)
    (other : MemoryAllocator) (tag : Nat) :
    ∃ loaded, load path other (.regular content) tag = .ok (.ok loaded) ∧
      SameCollection other view collection loaded ∧ loaded.Indexed view := by
  have tracked : collection.Tracked True view := indexed.tracked
  have encoded := (image_captured shows_).symm.trans isImage
  have counts := image_countsNodes shows_ tracked storable.1 isImage
  rcases load_restored valid unnamed shows_ tracked storable.2.1 storable.1 encoded
    (storable.2.2 _ isImage) path other tag with ⟨loaded, read, same⟩
  have reading : ∃ viewRead, loaded.Shows other viewRead ∧ loaded.Tracked True viewRead :=
    load_tracked read (fun _ => counts.covers read)
  rcases reading with ⟨viewRead, showsRead, trackedRead⟩
  have views : viewRead = view := showsRead.eq.trans same.shows.eq.symm
  rw [views] at trackedRead
  refine ⟨loaded, read, same, trackedRead.typed, ?_, ?_, trackedRead.ignored trivial⟩
  · rw [same.config]
    exact same.index.sound indexed.sound storable.1
  · exact fun index held => trackedRead.mirrors held

end PersistenceManager

namespace World

open PersistenceManager

variable {D : Type} [FloatOrder D] {host : Host D} {world : World}

theorem History.indexed (history : History host Storable world) :
    world.engine.Owned ∧ world.engine.Configured ∧ world.engine.Each Collection.Indexed ∧
      world.Files Faithful := by
  apply history.keeps new_indexed
  · intro allocator collection next allocator' view operated sound stored shows_ indexed
    exact operated.indexed sound stored shows_ indexed
  · intro allocator collection view content valid unnamed shows_ indexed storable isImage
    exact ⟨allocator, collection, view, valid, unnamed, shows_, indexed, storable, isImage⟩
  · intro path allocator content tag collection faithful loaded
    rcases faithful with ⟨before, saved, view, valid, unnamed, shows_, indexed, storable, isImage⟩
    rcases load_storable valid unnamed shows_ indexed storable isImage path allocator tag with
      ⟨restored, read, same, sound⟩
    rw [loaded] at read
    cases read
    exact ⟨view, same.shows, sound⟩

end World

end VectorVault
