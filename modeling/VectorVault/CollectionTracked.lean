import VectorVault.CollectionRelations
import VectorVault.IndexUpdates

/-! An index that may lack records of its collection.

The graph of an accepted file need not name every record. It never has a record
that is not stored, or another vector for one, and no operation changes that. -/

namespace VectorVault

namespace Collection

/-- What an index holds under an identifier is what is stored there. Only an
index that is not `whole` may hold nothing instead. -/
def Agrees (whole : Prop) (held stored : Option (List F32)) : Prop :=
  held = stored ∨ ¬ whole ∧ held = none

theorem Agrees.updated {whole : Prop} {held stored : Option (List F32)}
    (agrees : Agrees whole held stored) (here : Prop) [Decidable here]
    (value : Option (List F32)) :
    Agrees whole (if here then value else held) (if here then value else stored) := by
  split
  · exact Or.inl rfl
  · exact agrees

/-- An index that holds nothing that is not stored, and everything if it is `whole`. -/
structure Tracked (whole : Prop) (collection : Collection)
    (view : OrderedMap RecordId RecordView) : Prop where
  typed : collection.indexType = (match collection.index with
    | some index => index.type
    | none => .none)
  consistent : ∀ index, collection.index = some index →
    index.Consistent collection.config.dimensionality
  agrees : ∀ index, collection.index = some index → ∀ id,
    Agrees whole (index.roster.vectorOf id) ((view.find? id).map RecordView.vector)
  ignored : whole → collection.ignoredFailures = 0

variable {D : Type} [FloatOrder D] {host : Host D} {allocator allocator' : MemoryAllocator}
  {collection next : Collection} {view : OrderedMap RecordId RecordView} {whole : Prop}

theorem new_tracked (config : CollectionConfig) (tag : Nat) :
    (new config tag).Tracked whole OrderedMap.empty :=
  ⟨rfl, fun _ held => by (cases held), fun _ held => by (cases held), fun _ => rfl⟩

theorem Indexed.tracked (indexed : collection.Indexed view) : collection.Tracked whole view :=
  ⟨indexed.typed, fun index held => (indexed.sound index held).consistent,
    fun index held id => Or.inl (indexed.mirrors index held id), fun _ => indexed.ignored⟩

theorem tracked_of_none (nothing : collection.index = none) (typed : collection.indexType = .none)
    (ignored : collection.ignoredFailures = 0) : collection.Tracked whole view := by
  constructor
  · rw [typed, nothing]
  · intro index held
    rw [nothing] at held
    cases held
  · intro index held
    rw [nothing] at held
    cases held
  · exact fun _ => ignored

theorem tracked_of_index {index : Index} (held : collection.index = some index)
    (typed : collection.indexType = index.type)
    (consistent : index.Consistent collection.config.dimensionality)
    (agrees : ∀ id, Agrees whole (index.roster.vectorOf id)
      ((view.find? id).map RecordView.vector))
    (ignored : collection.ignoredFailures = 0) : collection.Tracked whole view := by
  constructor
  · rw [typed, held]
  · intro other isOther
    rw [held, Option.some.injEq] at isOther
    rw [← isOther]
    exact consistent
  · intro other isOther
    rw [held, Option.some.injEq] at isOther
    rw [← isOther]
    exact agrees
  · exact fun _ => ignored

def Tracks (whole : Prop) (config : CollectionConfig) (type : IndexType) (index : Index)
    (vectors : RecordId → Option (List F32)) : Prop :=
  type = index.type ∧ index.Consistent config.dimensionality ∧
    ∀ id, Agrees whole (index.roster.vectorOf id) (vectors id)

theorem tracked_iff :
    collection.Tracked whole view ↔ collection.Related whole (Tracks whole) view := by
  constructor
  · intro tracked
    refine ⟨?_, ?_, tracked.ignored⟩
    · intro nothing
      rw [tracked.typed, nothing]
    · intro index held
      have typed := tracked.typed
      rw [held] at typed
      exact ⟨typed, tracked.consistent index held, tracked.agrees index held⟩
  · intro related
    refine ⟨?_, fun index held => (related.holds index held).2.1,
      fun index held => (related.holds index held).2.2, related.ignored⟩
    cases held : collection.index with
    | none => exact related.none held
    | some index => exact (related.holds index held).1

theorem tracks_maintained : Maintained host whole (Tracks whole) := by
  constructor
  · intro config type params typed
    obtain ⟨sound, empty⟩ := newIndex_sound config type params
    refine ⟨?_, sound.consistent, fun id => Or.inl (empty id)⟩
    cases type with
    | none => exact absurd rfl typed
    | hnsw => rfl
    | ivf => rfl
  · intro config type index after vectors id vec status tracks named sized added
    obtain ⟨typed, consistent, agrees⟩ := tracks
    obtain ⟨succeeded, kept, sameType, vectorsAfter⟩ := consistent.add named sized added
    refine ⟨fun _ => succeeded, typed.trans sameType.symm, kept, ?_⟩
    intro other
    rw [vectorsAfter other]
    exact (agrees other).updated _ _
  · intro config type index after vectors id status tracks stored removed
    obtain ⟨typed, consistent, agrees⟩ := tracks
    obtain ⟨succeeds, kept, sameType, vectorsAfter⟩ := consistent.remove removed
    refine ⟨?_, typed.trans sameType.symm, kept, ?_⟩
    · intro isWhole
      rcases agrees id with same | ⟨missing, _⟩
      · obtain ⟨vec, isVec⟩ := Option.ne_none_iff_exists'.mp stored
        exact succeeds vec (same.trans isVec)
      · exact absurd isWhole missing
    · intro other
      rw [vectorsAfter other]
      exact (agrees other).updated _ _
  · intro config type index after vectors q k params candidates tracks searched
    obtain ⟨typed, consistent, agrees⟩ := tracks
    obtain ⟨kept, sameType, roster⟩ := consistent.search searched
    refine ⟨typed.trans sameType.symm, kept, ?_⟩
    rw [roster]
    exact agrees

end Collection

section Steps

open Collection

variable {D : Type} [FloatOrder D] {host : Host D} {allocator allocator' : MemoryAllocator}
  {collection next : Collection} {view : OrderedMap RecordId RecordView} {whole : Prop}

theorem Operated.tracked (operated : Operated host allocator collection allocator' next)
    (sound : allocator.Sound) (stored : collection.Stored allocator [])
    (shows_ : collection.Shows allocator view) (tracked : collection.Tracked whole view) :
    ∃ viewAfter, Advances [] allocator allocator' collection next viewAfter ∧
      next.Tracked whole viewAfter := by
  obtain ⟨viewAfter, advances, related⟩ :=
    operated.related tracks_maintained sound stored shows_ (tracked_iff.mp tracked)
  exact ⟨viewAfter, advances, tracked_iff.mpr related⟩

end Steps

end VectorVault
