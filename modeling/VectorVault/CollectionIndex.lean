import VectorVault.CollectionUpdates
import VectorVault.IndexMembership

/-! The index of a collection mirrors its records.

No operation on such a collection fails in its index: the updates whose status
the code does not look at succeed. -/

namespace VectorVault.Collection

open MemoryAllocator

/-- The live records of an index are those of a view, with the same vectors. -/
def Mirrors (index : Index) (view : OrderedMap RecordId RecordView) : Prop :=
  ∀ id, index.roster.vectorOf id = (view.find? id).map RecordView.vector

structure Indexed (collection : Collection) (view : OrderedMap RecordId RecordView) : Prop where
  typed : collection.indexType = (match collection.index with
    | some index => index.type
    | none => .none)
  sound : ∀ index, collection.index = some index →
    index.Sound collection.config.dimensionality collection.config.metric
  mirrors : ∀ index, collection.index = some index → Mirrors index view
  ignored : collection.ignoredFailures = 0

theorem new_indexed (config : CollectionConfig) (tag : Nat) :
    (new config tag).Indexed OrderedMap.empty :=
  ⟨rfl, fun _ held => by (cases held), fun _ held => by (cases held), rfl⟩

variable {D : Type} [FloatOrder D] {host : Host D} {allocator : MemoryAllocator}
  {collection : Collection} {view : OrderedMap RecordId RecordView} {id : RecordId}
  {vec : List F32} {metadata : Option Metadata}

theorem Indexed.moved {other : Collection} (indexed : collection.Indexed view)
    (config : other.config = collection.config) (index : other.index = collection.index)
    (type : other.indexType = collection.indexType)
    (ignored : other.ignoredFailures = collection.ignoredFailures) : other.Indexed view := by
  refine ⟨?_, ?_, ?_, ignored.trans indexed.ignored⟩
  · rw [type, index]
    exact indexed.typed
  · intro held isHeld
    rw [index] at isHeld
    rw [config]
    exact indexed.sound held isHeld
  · intro held isHeld
    rw [index] at isHeld
    exact indexed.mirrors held isHeld

section Update

variable (host) in
theorem indexAdd_total (indexed : collection.Indexed view) (named : id ≠ [])
    (sized : vec.length = collection.config.dimensionality.toNat) (metadata : Option Metadata) :
    ∃ next, indexAdd host collection id vec = .ok next ∧
      next.Indexed (view.insert id ⟨vec, metadata⟩) := by
  cases held : collection.index with
  | none =>
      refine ⟨collection, by simp only [indexAdd, held]; rfl, ?_, ?_, ?_, indexed.ignored⟩
      · exact indexed.typed
      · exact indexed.sound
      · intro index isHeld
        rw [held] at isHeld
        cases isHeld
  | some index =>
      obtain ⟨after, added, sound, type, vectors⟩ :=
        (indexed.sound index held).add host named sized
      have typed := indexed.typed
      rw [held] at typed
      have result : indexAdd host collection id vec = .ok
          { collection with
            index := some after
            ignoredFailures := collection.ignoredFailures + failures (.ok ()) } := by
        simp only [indexAdd, held, added]
        rfl
      refine ⟨_, result, typed.trans type.symm, ?_, ?_, indexed.ignored⟩
      · intro other isOther
        cases isOther
        exact sound
      · intro other isOther
        cases isOther
        intro name
        rw [vectors name, OrderedMap.find_insert, indexed.mirrors index held name]
        split <;> rfl

theorem indexRemove_total (indexed : collection.Indexed view) {record : RecordView}
    (known : view.find? id = some record) :
    ∃ next, indexRemove collection id = .ok next ∧ next.Indexed (view.erase id) := by
  cases held : collection.index with
  | none =>
      refine ⟨collection, by simp only [indexRemove, held]; rfl, ?_, ?_, ?_, indexed.ignored⟩
      · exact indexed.typed
      · exact indexed.sound
      · intro index isHeld
        rw [held] at isHeld
        cases isHeld
  | some index =>
      have live : index.roster.vectorOf id = some record.vector := by
        rw [indexed.mirrors index held id, known, Option.map_some]
      obtain ⟨after, removed, sound, type, vectors⟩ := (indexed.sound index held).remove live
      have typed := indexed.typed
      rw [held] at typed
      have result : indexRemove collection id = .ok
          { collection with
            index := some after
            ignoredFailures := collection.ignoredFailures + failures (.ok ()) } := by
        simp only [indexRemove, held, removed]
        rfl
      refine ⟨_, result, typed.trans type.symm, ?_, ?_, indexed.ignored⟩
      · intro other isOther
        cases isOther
        exact sound
      · intro other isOther
        cases isOther
        intro name
        rw [vectors name, OrderedMap.find_erase, indexed.mirrors index held name]
        split <;> rfl

variable (host allocator) in
theorem commit_total (indexed : collection.Indexed view) (named : id ≠ [])
    (sized : vec.length = collection.config.dimensionality.toNat) (metadata : Option Metadata)
    (block : Block) :
    ∃ after next, commit host allocator collection id vec metadata block = .ok (after, next) ∧
      next.Indexed (view.insert id ⟨vec, metadata⟩) := by
  cases found : collection.records.find? id with
  | some slot =>
      have moved : Indexed
          { collection with records := collection.records.insert id ⟨block, metadata⟩ } view :=
        indexed.moved rfl rfl rfl rfl
      obtain ⟨next, added, final⟩ := indexAdd_total host moved named sized metadata
      refine ⟨allocator.release slot.vectorBlock, next, ?_, final⟩
      simp only [commit, found, added]
      rfl
  | none =>
      have moved : Indexed
          { collection with
            records := collection.records.emplace id ⟨block, metadata⟩
            recordCount := collection.recordCount + 1 } view :=
        indexed.moved rfl rfl rfl rfl
      obtain ⟨next, added, final⟩ := indexAdd_total host moved named sized metadata
      refine ⟨allocator, next, ?_, final⟩
      simp only [commit, found, added]
      rfl

variable (host) in
theorem commitAll_total (allocator : MemoryAllocator) (pairs : List (RecordInput × Block)) (indexed : collection.Indexed view)
    (valid : ∀ pair ∈ pairs, pair.1.id ≠ [] ∧
      pair.1.vector.length = collection.config.dimensionality.toNat) :
    ∃ after next, commitAll host pairs allocator collection = .ok (after, next) ∧
      next.Indexed (insertedAll view (pairs.map Prod.fst)) := by
  induction pairs generalizing allocator collection view with
  | nil => exact ⟨allocator, collection, rfl, indexed⟩
  | cons pair rest ih =>
      obtain ⟨named, sized⟩ := valid pair List.mem_cons_self
      obtain ⟨middle, committed, step, grown⟩ :=
        commit_total host allocator indexed named sized pair.1.metadata pair.2
      have same := (commit_ok step).1
      have later : ∀ other ∈ rest, other.1.id ≠ [] ∧
          other.1.vector.length = committed.config.dimensionality.toNat := by
        intro other member
        rw [same.config]
        exact valid other (List.mem_cons_of_mem pair member)
      obtain ⟨after, next, all, final⟩ := ih middle grown later
      refine ⟨after, next, ?_, final⟩
      obtain ⟨record, block⟩ := pair
      simp only [commitAll, step]
      exact all

end Update

section Operations

theorem stage_length {bytes tag : Nat} {records : List RecordInput} {taken blocks : List Block}
    {stored : MemoryAllocator}
    (staged : stage bytes tag records taken allocator = (.ok blocks, stored)) :
    blocks.length = taken.length + records.length := by
  induction records generalizing taken allocator with
  | nil =>
      cases staged
      rfl
  | cons record rest ih =>
      rw [stage] at staged
      split at staged
      · cases staged
      · have length := ih staged
        rw [List.length_append, List.length_singleton] at length
        rw [List.length_cons]
        omega

variable (host allocator) in
theorem insert_total (indexed : collection.Indexed view) (id : RecordId) (vec : List F32)
    (metadata : Option Metadata) :
    ∃ status after next, insert host allocator collection id vec metadata =
        .ok (status, after, next) ∧
      next.Indexed (inserted view id vec metadata status) := by
  cases valid : rejectInsert collection.config id vec with
  | some error =>
      exact ⟨.error error, allocator, collection, by simp only [insert, valid]; rfl, indexed⟩
  | none =>
      obtain ⟨named, sized, _⟩ := rejectInsert_none valid
      cases granted : allocator.allocate collection.vectorBytes collection.tag with
      | error error =>
          exact ⟨.error error, allocator, collection, by simp only [insert, valid, granted]; rfl,
            indexed⟩
      | ok result =>
          obtain ⟨block, allocated⟩ := result
          obtain ⟨after, next, step, final⟩ := commit_total host
            (storeComponents allocated block vec) indexed named sized metadata block
          refine ⟨.ok (), after, next, ?_, final⟩
          simp only [insert, valid, granted, step]
          rfl

variable (host allocator) in
theorem insertBatch_total (indexed : collection.Indexed view) (records : List RecordInput) :
    ∃ status after next, insertBatch host allocator collection records =
        .ok (status, after, next) ∧
      next.Indexed (insertedBatch view records status) := by
  cases valid : rejectBatch collection.config records with
  | some error =>
      exact ⟨.error error, allocator, collection, by simp only [insertBatch, valid]; rfl, indexed⟩
  | none =>
      have accepted := rejectBatch_none valid
      cases staged : stage collection.vectorBytes collection.tag records [] allocator with
      | mk outcome stored =>
          cases outcome with
          | error error =>
              exact ⟨.error error, stored, collection,
                by simp only [insertBatch, valid, staged]; rfl, indexed⟩
          | ok blocks =>
              have length := stage_length staged
              have pairs : ∀ pair ∈ records.zip blocks, pair.1.id ≠ [] ∧
                  pair.1.vector.length = collection.config.dimensionality.toNat := by
                intro pair member
                obtain ⟨named, sized, _⟩ := accepted pair.1 (List.of_mem_zip member).1
                exact ⟨named, sized⟩
              obtain ⟨after, next, step, final⟩ :=
                commitAll_total host stored (records.zip blocks) indexed pairs
              rw [List.map_fst_zip (by simpa using length.ge)] at final
              refine ⟨.ok (), after, next, ?_, final⟩
              simp only [insertBatch, valid, staged, step]
              rfl

variable (allocator) in
theorem remove_total (indexed : collection.Indexed view) (shows_ : collection.Shows allocator view)
    (id : RecordId) :
    ∃ status after next, remove allocator collection id = .ok (status, after, next) ∧
      next.Indexed (removed view id status) := by
  cases found : collection.records.find? id with
  | none =>
      exact ⟨.error (noSuchRecord id), allocator, collection, by simp only [remove, found]; rfl,
        indexed⟩
  | some slot =>
      obtain ⟨_, _, known⟩ := shows_.slot found
      have moved : Indexed
          { collection with
            records := collection.records.erase id
            recordCount := collection.recordCount - 1 } view :=
        indexed.moved rfl rfl rfl rfl
      obtain ⟨next, removed, final⟩ := indexRemove_total moved known
      refine ⟨.ok (), allocator.release slot.vectorBlock, next, ?_, final⟩
      simp only [remove, found, removed]
      rfl

theorem newIndex_sound (config : CollectionConfig) (type : IndexType) (params : IndexParams) :
    (newIndex config type params).Sound config.dimensionality config.metric ∧
      ∀ id, (newIndex config type params).roster.vectorOf id = none := by
  have ivf : (Index.ivf (IvfIndex.new config.dimensionality config.metric params)).Sound
      config.dimensionality config.metric :=
    ⟨IvfIndex.new_wellFormed config.dimensionality config.metric params, rfl, rfl⟩
  cases type with
  | hnsw =>
      exact ⟨⟨HnswIndex.new_wellFormed config.dimensionality config.metric params, rfl, rfl⟩,
        fun _ => rfl⟩
  | ivf => exact ⟨ivf, fun _ => rfl⟩
  | none => exact ⟨ivf, fun _ => rfl⟩

variable (host) in
/-- Induction over the records not added yet; those already added are in the index. -/
theorem populate_total (shows_ : collection.Shows allocator view)
    (named : collection.records.find? [] = none) (entries : List (RecordId × RecordSlot))
    (held : ∀ entry ∈ entries, collection.records.find? entry.1 = some entry.2) {index : Index}
    (sound : index.Sound collection.config.dimensionality collection.config.metric) :
    ∃ final, populate host allocator collection entries index = .ok (.ok (), final) ∧
      final.Sound collection.config.dimensionality collection.config.metric ∧
      final.type = index.type ∧ ∀ id, final.roster.vectorOf id =
        if id ∈ entries.map Prod.fst then (view.find? id).map RecordView.vector
        else index.roster.vectorOf id := by
  induction entries generalizing index with
  | nil => exact ⟨index, rfl, sound, rfl, fun id => by rw [if_neg (by simp)]⟩
  | cons entry rest ih =>
      obtain ⟨id, slot⟩ := entry
      have found := held (id, slot) List.mem_cons_self
      simp only at found
      obtain ⟨components, read, known⟩ := shows_.slot found
      have isNamed : id ≠ [] := by
        intro empty
        rw [empty, named] at found
        cases found
      obtain ⟨next, added, soundNext, type, vectors⟩ :=
        sound.add host isNamed (components_length read)
      obtain ⟨final, all, soundFinal, typeFinal, vectorsFinal⟩ :=
        ih (fun other member => held other (List.mem_cons_of_mem (id, slot) member)) soundNext
      refine ⟨final, ?_, soundFinal, typeFinal.trans type, ?_⟩
      · simp only [populate, read, bind, Except.bind, added]
        exact all
      · intro other
        rw [vectorsFinal other, vectors other, List.map_cons]
        by_cases later : other ∈ rest.map Prod.fst
        · rw [if_pos later, if_pos (List.mem_cons_of_mem id later)]
        · rw [if_neg later]
          by_cases here : other = id
          · rw [if_pos here, here, if_pos List.mem_cons_self, known, Option.map_some]
          · rw [if_neg here, if_neg]
            intro member
            rcases List.mem_cons.mp member with same | member
            · exact here same
            · exact later member

theorem mirrors_of_populated (shows_ : collection.Shows allocator view) {start final : Index}
    (empty : ∀ id, start.roster.vectorOf id = none)
    (vectors : ∀ id, final.roster.vectorOf id =
      if id ∈ collection.records.entries.map Prod.fst then (view.find? id).map RecordView.vector
      else start.roster.vectorOf id) : Mirrors final view := by
  intro id
  rw [vectors id, empty id]
  split
  · rfl
  · next missing =>
      have absent : collection.records.find? id = none := by
        apply OrderedMap.absent_of_not_contains
        intro present
        exact missing ((OrderedMap.mem_keys_iff _ _).mpr ((OrderedMap.contains_iff _ _).mp present))
      rw [shows_.absent absent, Option.map_none]

variable (host) in
theorem buildIndex_total (indexed : collection.Indexed view)
    (shows_ : collection.Shows allocator view) (named : collection.records.find? [] = none)
    (type : IndexType) (params : IndexParams) :
    ∃ status next, buildIndex host allocator collection type params = .ok (status, next) ∧
      next.Indexed view := by
  cases valid : collection.rejectBuild type params with
  | some error =>
      exact ⟨.error error, collection, by simp only [buildIndex, valid]; rfl, indexed⟩
  | none =>
      obtain ⟨sound, empty⟩ := newIndex_sound collection.config type params
      obtain ⟨final, built, soundFinal, typed, vectors⟩ := populate_total host shows_ named
        collection.records.entries
        (fun entry member => (OrderedMap.find_eq_some_iff _ _ _).mpr member) sound
      refine ⟨.ok (), { collection with index := some final, indexType := type }, ?_, ?_, ?_, ?_,
        indexed.ignored⟩
      · simp only [buildIndex, valid, bind, Except.bind, built]
        rfl
      · simp only [typed]
        cases type with
        | none => cases valid
        | hnsw => rfl
        | ivf => rfl
      · intro other isOther
        cases isOther
        exact soundFinal
      · intro other isOther
        cases isOther
        exact mirrors_of_populated shows_ empty vectors

theorem query_indexed {q : List F32} {k : UInt32} {params : QueryParams}
    {answer : Result (List (Neighbor D))} {next : Collection} (indexed : collection.Indexed view)
    (done : query host allocator collection q k params = .ok (answer, next)) :
    next.Indexed view := by
  rcases queryWith_ok done with unchanged | ⟨index, candidates, after, held, searched, shape⟩
  · rw [unchanged]
    exact indexed
  · obtain ⟨sound, type, roster⟩ := (indexed.sound index held).search host searched
    have typed := indexed.typed
    rw [held] at typed
    rw [shape]
    refine ⟨typed.trans type.symm, ?_, ?_, indexed.ignored⟩
    · intro other isOther
      cases isOther
      exact sound
    · intro other isOther
      cases isOther
      intro id
      rw [roster]
      exact indexed.mirrors index held id

end Operations

end VectorVault.Collection
