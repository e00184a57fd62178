import VectorVault.CollectionIndex
import VectorVault.EngineViews

/-! Relations between an index and the vectors its collection stores.

A relation a new index has and every operation on an index keeps stands in every
collection, through inserts, batches, removals, builds and queries. -/

namespace VectorVault

open MemoryAllocator

def vectorsOf (view : OrderedMap RecordId RecordView) (id : RecordId) : Option (List F32) :=
  (view.find? id).map RecordView.vector

theorem vectorsOf_insert (view : OrderedMap RecordId RecordView) (id : RecordId)
    (record : RecordView) :
    vectorsOf (view.insert id record) =
      fun other => if other = id then some record.vector else vectorsOf view other := by
  funext other
  rw [vectorsOf, OrderedMap.find_insert]
  split
  · rfl
  · rfl

theorem vectorsOf_erase (view : OrderedMap RecordId RecordView) (id : RecordId) :
    vectorsOf (view.erase id) = fun other => if other = id then none else vectorsOf view other := by
  funext other
  rw [vectorsOf, OrderedMap.find_erase]
  split
  · rfl
  · rfl

section Relations

variable {D : Type} [FloatOrder D] (host : Host D) (whole : Prop)
  (relation : CollectionConfig → IndexType → Index → (RecordId → Option (List F32)) → Prop)

/-- What the index operations keep; if the index is `whole` they do not fail. -/
structure Maintained : Prop where
  start : ∀ config type params, type ≠ .none →
    relation config type (Collection.newIndex config type params) (fun _ => none)
  add : ∀ {config type index after vectors id vec status}, relation config type index vectors →
    id ≠ [] → vec.length = config.dimensionality.toNat →
    index.add host id vec = .ok (status, after) → (whole → status = .ok ()) ∧
      relation config type after (fun other => if other = id then some vec else vectors other)
  remove : ∀ {config type index after vectors id status}, relation config type index vectors →
    vectors id ≠ none → index.remove id = .ok (status, after) → (whole → status = .ok ()) ∧
      relation config type after (fun other => if other = id then none else vectors other)
  search : ∀ {config type index after vectors q k params} {candidates : List (Candidate D)},
    relation config type index vectors → index.search host q k params = .ok (candidates, after) →
      relation config type after vectors

namespace Collection

/-- The index of a collection, if it has one, is so related to what is stored. -/
structure Related (collection : Collection) (view : OrderedMap RecordId RecordView) : Prop where
  none : collection.index = none → collection.indexType = .none
  holds : ∀ index, collection.index = some index →
    relation collection.config collection.indexType index (vectorsOf view)
  ignored : whole → collection.ignoredFailures = 0

variable {host whole relation} {allocator allocator' : MemoryAllocator}
  {collection next : Collection} {view : OrderedMap RecordId RecordView} {id : RecordId}
  {vec : List F32} {metadata : Option Metadata}

theorem new_related (config : CollectionConfig) (tag : Nat) :
    (new config tag).Related whole relation OrderedMap.empty :=
  ⟨fun _ => rfl, fun _ held => by (cases held), fun _ => rfl⟩

theorem Related.moved {other : Collection} (related : collection.Related whole relation view)
    (config : other.config = collection.config) (index : other.index = collection.index)
    (type : other.indexType = collection.indexType)
    (ignored : other.ignoredFailures = collection.ignoredFailures) :
    other.Related whole relation view := by
  constructor
  · rw [index, type]
    exact related.none
  · rw [config, index, type]
    exact related.holds
  · rw [ignored]
    exact related.ignored

theorem Related.unindexed (related : collection.Related whole relation view)
    (nothing : collection.index = .none) (other : OrderedMap RecordId RecordView) :
    collection.Related whole relation other := by
  refine ⟨related.none, ?_, related.ignored⟩
  intro index held
  rw [nothing] at held
  cases held

theorem Related.reindexed {index : Index} {viewAfter : OrderedMap RecordId RecordView}
    {failed : Nat}
    (holds : relation collection.config collection.indexType index (vectorsOf viewAfter))
    (ignored : whole → failed = 0) :
    Related whole relation { collection with index := some index, ignoredFailures := failed }
      viewAfter := by
  refine ⟨fun absent => by (cases absent), ?_, ignored⟩
  intro other isOther
  cases isOther
  exact holds

section Update

theorem indexAdd_related (maintained : Maintained host whole relation)
    (related : collection.Related whole relation view) (named : id ≠ [])
    (sized : vec.length = collection.config.dimensionality.toNat) (metadata : Option Metadata)
    (added : indexAdd host collection id vec = .ok next) :
    next.Related whole relation (view.insert id ⟨vec, metadata⟩) := by
  unfold indexAdd at added
  cases held : collection.index with
  | none =>
      simp only [held] at added
      cases added
      exact related.unindexed held _
  | some index =>
      simp only [held] at added
      obtain ⟨⟨status, after⟩, step, done⟩ := bind_ok added
      cases done
      obtain ⟨succeeds, kept⟩ := maintained.add (related.holds index held) named sized step
      apply Related.reindexed
      · rw [vectorsOf_insert]
        exact kept
      · intro isWhole
        simp only [succeeds isWhole, failures, related.ignored isWhole]

theorem indexRemove_related (maintained : Maintained host whole relation)
    (related : collection.Related whole relation view) {record : RecordView}
    (known : view.find? id = some record) (removed : indexRemove collection id = .ok next) :
    next.Related whole relation (view.erase id) := by
  unfold indexRemove at removed
  cases held : collection.index with
  | none =>
      simp only [held] at removed
      cases removed
      exact related.unindexed held _
  | some index =>
      simp only [held] at removed
      obtain ⟨⟨status, after⟩, step, done⟩ := bind_ok removed
      cases done
      have stored : vectorsOf view id ≠ none := by
        rw [vectorsOf, known]
        exact Option.some_ne_none _
      obtain ⟨succeeds, kept⟩ := maintained.remove (related.holds index held) stored step
      apply Related.reindexed
      · rw [vectorsOf_erase]
        exact kept
      · intro isWhole
        simp only [succeeds isWhole, failures, related.ignored isWhole]

theorem commit_related (maintained : Maintained host whole relation) {block : Block}
    (related : collection.Related whole relation view) (named : id ≠ [])
    (sized : vec.length = collection.config.dimensionality.toNat)
    (committed : commit host allocator collection id vec metadata block = .ok (allocator', next)) :
    next.Related whole relation (view.insert id ⟨vec, metadata⟩) := by
  unfold commit at committed
  cases found : collection.records.find? id with
  | some slot =>
      simp only [found] at committed
      obtain ⟨indexed, added, done⟩ := bind_ok committed
      cases done
      have moved : Related whole relation
          { collection with records := collection.records.insert id ⟨block, metadata⟩ } view :=
        related.moved rfl rfl rfl rfl
      exact indexAdd_related maintained moved named sized metadata added
  | none =>
      simp only [found] at committed
      obtain ⟨indexed, added, done⟩ := bind_ok committed
      cases done
      have moved : Related whole relation
          { collection with
            records := collection.records.emplace id ⟨block, metadata⟩
            recordCount := collection.recordCount + 1 } view :=
        related.moved rfl rfl rfl rfl
      exact indexAdd_related maintained moved named sized metadata added

theorem commitAll_related (maintained : Maintained host whole relation)
    (pairs : List (RecordInput × Block)) (related : collection.Related whole relation view)
    (valid : ∀ pair ∈ pairs, pair.1.id ≠ [] ∧
      pair.1.vector.length = collection.config.dimensionality.toNat)
    (committed : commitAll host pairs allocator collection = .ok (allocator', next)) :
    next.Related whole relation (insertedAll view (pairs.map Prod.fst)) := by
  induction pairs generalizing allocator collection view with
  | nil =>
      cases committed
      exact related
  | cons pair rest ih =>
      obtain ⟨⟨middle, grown⟩, first, later⟩ := bind_ok committed
      have here := valid pair List.mem_cons_self
      have same := (commit_ok first).1
      apply ih (commit_related maintained related here.1 here.2 first) _ later
      rw [same.config]
      exact fun other member => valid other (List.mem_cons_of_mem pair member)

end Update

section Operations

theorem insert_related (maintained : Maintained host whole relation) {status : Status}
    (related : collection.Related whole relation view)
    (done : insert host allocator collection id vec metadata = .ok (status, allocator', next)) :
    next.Related whole relation (inserted view id vec metadata status) := by
  unfold insert at done
  cases valid : rejectInsert collection.config id vec with
  | some error =>
      simp only [valid] at done
      cases done
      exact related
  | none =>
      simp only [valid] at done
      cases granted : allocator.allocate collection.vectorBytes collection.tag with
      | error error =>
          simp only [granted] at done
          cases done
          exact related
      | ok result =>
          simp only [granted] at done
          obtain ⟨⟨released, committed⟩, step, last⟩ := bind_ok done
          cases last
          obtain ⟨named, sized, _⟩ := rejectInsert_none valid
          exact commit_related maintained related named sized step

theorem insertBatch_related (maintained : Maintained host whole relation)
    {records : List RecordInput} {status : Status}
    (related : collection.Related whole relation view)
    (done : insertBatch host allocator collection records = .ok (status, allocator', next)) :
    next.Related whole relation (insertedBatch view records status) := by
  unfold insertBatch at done
  cases valid : rejectBatch collection.config records with
  | some error =>
      simp only [valid] at done
      cases done
      exact related
  | none =>
      simp only [valid] at done
      have accepted := rejectBatch_none valid
      cases staged : stage collection.vectorBytes collection.tag records [] allocator with
      | mk outcome stored =>
          simp only [staged] at done
          cases outcome with
          | error error =>
              cases done
              exact related
          | ok blocks =>
              obtain ⟨⟨released, committed⟩, step, last⟩ := bind_ok done
              cases last
              have length := stage_length staged
              have pairs : ∀ pair ∈ records.zip blocks, pair.1.id ≠ [] ∧
                  pair.1.vector.length = collection.config.dimensionality.toNat := by
                intro pair member
                have record := accepted pair.1 (List.of_mem_zip member).1
                exact ⟨record.1, record.2.1⟩
              have final := commitAll_related maintained (records.zip blocks) related pairs step
              rw [List.map_fst_zip (by simpa using length.ge)] at final
              exact final

theorem remove_related (maintained : Maintained host whole relation) {status : Status}
    (related : collection.Related whole relation view)
    (shows_ : collection.Shows allocator view)
    (done : remove allocator collection id = .ok (status, allocator', next)) :
    next.Related whole relation (removed view id status) := by
  unfold remove at done
  cases found : collection.records.find? id with
  | none =>
      simp only [found] at done
      cases done
      exact related
  | some slot =>
      simp only [found] at done
      obtain ⟨indexed, step, last⟩ := bind_ok done
      cases last
      obtain ⟨_, _, known⟩ := shows_.slot found
      have moved : Related whole relation
          { collection with
            records := collection.records.erase id
            recordCount := collection.recordCount - 1 } view :=
        related.moved rfl rfl rfl rfl
      exact indexRemove_related maintained moved known step

/-- Induction over the records not added yet; those already added are in the index. -/
theorem populate_related (maintained : Maintained host whole relation) {type : IndexType}
    (shows_ : collection.Shows allocator view) (named : collection.records.find? [] = none)
    (entries : List (RecordId × RecordSlot))
    (held : ∀ entry ∈ entries, collection.records.find? entry.1 = some entry.2)
    {index final : Index} {vectors : RecordId → Option (List F32)}
    (holds : relation collection.config type index vectors)
    (populated : populate host allocator collection entries index = .ok (.ok (), final)) :
    relation collection.config type final
      (fun id => if id ∈ entries.map Prod.fst then vectorsOf view id else vectors id) := by
  induction entries generalizing index vectors with
  | nil =>
      cases populated
      simp only [List.map_nil, List.not_mem_nil, if_false]
      exact holds
  | cons entry rest ih =>
      obtain ⟨id, slot⟩ := entry
      have found := held (id, slot) List.mem_cons_self
      simp only at found
      have isNamed : id ≠ [] := by
        intro empty
        rw [empty, named] at found
        cases found
      obtain ⟨components, read, populated⟩ := bind_ok populated
      obtain ⟨⟨status, grown⟩, added, populated⟩ := bind_ok populated
      have kept := (maintained.add holds isNamed (components_length read) added).2
      cases status with
      | error error => cases populated
      | ok _ =>
          have final_ := ih (fun other member => held other (List.mem_cons_of_mem (id, slot) member))
            kept populated
          have stored : vectorsOf view id = some components := by
            obtain ⟨again, same, known⟩ := shows_.slot found
            rw [read] at same
            cases same
            rw [vectorsOf, known]
            rfl
          have same : (fun other => if other ∈ ((id, slot) :: rest).map Prod.fst
              then vectorsOf view other else vectors other) =
              fun other => if other ∈ rest.map Prod.fst then vectorsOf view other
                else if other = id then some components else vectors other := by
            funext other
            by_cases here : other = id
            · rw [if_pos (by simp [here]), if_pos here, here, stored, ite_self]
            · simp only [List.map_cons, List.mem_cons, here, false_or, if_false]
          rw [same]
          exact final_

theorem vectorsOf_listed (shows_ : collection.Shows allocator view) :
    (fun id => if id ∈ collection.records.entries.map Prod.fst then vectorsOf view id else none) =
      vectorsOf view := by
  funext id
  split
  · rfl
  · next missing =>
      cases found : collection.records.find? id with
      | none => rw [vectorsOf, shows_.absent found, Option.map_none]
      | some slot => exact absurd ((OrderedMap.mem_keys_iff _ _).mpr ⟨slot, found⟩) missing

theorem buildIndex_related (maintained : Maintained host whole relation) {type : IndexType}
    {params : IndexParams} {status : Status} (related : collection.Related whole relation view)
    (shows_ : collection.Shows allocator view) (named : collection.records.find? [] = none)
    (done : buildIndex host allocator collection type params = .ok (status, next)) :
    next.Related whole relation view := by
  unfold buildIndex at done
  cases valid : collection.rejectBuild type params with
  | some error =>
      simp only [valid] at done
      cases done
      exact related
  | none =>
      simp only [valid] at done
      obtain ⟨⟨added, index⟩, populated, last⟩ := bind_ok done
      cases added with
      | error error =>
          cases last
          exact related
      | ok filled =>
          cases last
          have typed : type ≠ .none := by
            intro isNone
            rw [isNone] at valid
            cases valid
          have holds := populate_related maintained shows_ named collection.records.entries
            (fun entry member => (OrderedMap.find_eq_some_iff _ _ _).mpr member)
            (maintained.start collection.config type params typed) populated
          rw [vectorsOf_listed shows_] at holds
          refine ⟨fun absent => by (cases absent), ?_, related.ignored⟩
          intro other isOther
          cases isOther
          exact holds

theorem query_related (maintained : Maintained host whole relation) {q : List F32} {k : UInt32}
    {params : QueryParams} {answer : Result (List (Neighbor D))}
    (related : collection.Related whole relation view)
    (done : query host allocator collection q k params = .ok (answer, next)) :
    next.Related whole relation view := by
  rcases queryWith_ok done with unchanged | ⟨index, candidates, after, held, searched, shape⟩
  · rw [unchanged]
    exact related
  · have kept := maintained.search (related.holds index held) searched
    rw [shape]
    exact Related.reindexed kept related.ignored

end Operations

end Collection

open Collection in
theorem Operated.related {host : Host D} {whole : Prop}
    {relation : CollectionConfig → IndexType → Index → (RecordId → Option (List F32)) → Prop}
    (maintained : Maintained host whole relation) {allocator allocator' : MemoryAllocator} {collection next : Collection}
    {view : OrderedMap RecordId RecordView}
    (operated : Operated host allocator collection allocator' next)
    (sound : allocator.Sound) (stored : collection.Stored allocator [])
    (shows_ : collection.Shows allocator view) (related : collection.Related whole relation view) :
    ∃ viewAfter, Advances [] allocator allocator' collection next viewAfter ∧
      next.Related whole relation viewAfter := by
  cases operated with
  | insert done =>
      exact ⟨_, insert_advances sound stored shows_ done, insert_related maintained related done⟩
  | insertBatch done =>
      exact ⟨_, insertBatch_advances sound stored shows_ done,
        insertBatch_related maintained related done⟩
  | remove done =>
      exact ⟨_, remove_advances sound stored shows_ done,
        remove_related maintained related shows_ done⟩
  | buildIndex done =>
      obtain ⟨same, records, count⟩ := buildIndex_ok done
      exact ⟨view, stored.reindexed sound shows_ same records count,
        buildIndex_related maintained related shows_ stored.named done⟩
  | query done =>
      have kept := query_related maintained related done
      rcases queryWith_ok done with unchanged | ⟨_, _, _, _, _, shape⟩
      · rw [unchanged] at kept ⊢
        exact ⟨view, stored.advances sound shows_, kept⟩
      · rw [shape] at kept ⊢
        exact ⟨view, stored.reindexed sound shows_ ⟨rfl, rfl, rfl⟩ rfl rfl, kept⟩

end Relations

end VectorVault
