import VectorVault.AllocatorRooms
import VectorVault.BatchRollback
import VectorVault.CollectionIndex

/-! A batch against its records inserted one at a time.

The batch takes a room for each of its records before it gives any block back. An
insert takes one and may give one back, so it never finds fewer left than the
batch did. The index sees the same updates in the same order. -/

namespace VectorVault

open MemoryAllocator

namespace Collection

section Each

variable {D : Type} [FloatOrder D] (host : Host D)

/-- The records given to `insert` in order, with what each call returned. -/
def insertEach : List RecordInput → MemoryAllocator → Collection →
    Run (List Status × MemoryAllocator × Collection)
  | [], allocator, collection => return ([], allocator, collection)
  | record :: rest, allocator, collection => do
      let (status, grown, inserted) ← insert host allocator collection record.id record.vector
        record.metadata
      let (statuses, final, last) ← insertEach rest grown inserted
      return (status :: statuses, final, last)

end Each

/-- The same index, which no update tells apart from the other. -/
structure SameIndex (collection other : Collection) : Prop where
  index : other.index = collection.index
  indexType : other.indexType = collection.indexType
  ignoredFailures : other.ignoredFailures = collection.ignoredFailures

/-- The same records, count and index, wherever the vectors lie. -/
structure Alike (allocator : MemoryAllocator) (collection : Collection)
    (allocator' : MemoryAllocator) (other : Collection) : Prop
    extends SameIndex collection other where
  config : other.config = collection.config
  records : ∀ id, other.get allocator' id = collection.get allocator id
  count : other.count = collection.count

variable {D : Type} [FloatOrder D] {host : Host D} {allocator allocator' : MemoryAllocator}
  {collection next other : Collection} {view : OrderedMap RecordId RecordView} {id : RecordId}
  {vec : List F32} {metadata : Option Metadata}

section Rooms

theorem storeComponents_free (allocator : MemoryAllocator) (block : Block) (vec : List F32) :
    (storeComponents allocator block vec).freeByOffset = allocator.freeByOffset := by
  unfold storeComponents
  split
  · rfl
  · rfl

theorem stage_rooms (records : List RecordInput) {taken blocks : List Block}
    {stored : MemoryAllocator} (sound : allocator.Sound)
    (sized : ∀ record ∈ records, record.vector.length = collection.config.dimensionality.toNat)
    (staged : stage collection.vectorBytes collection.tag records taken allocator =
      (.ok blocks, stored)) :
    records.length ≤ rooms (needed collection.vectorBytes) allocator.freeByOffset := by
  induction records generalizing taken allocator with
  | nil => exact Nat.zero_le _
  | cons record rest ih =>
      rw [stage] at staged
      cases granted : allocator.allocate collection.vectorBytes collection.tag with
      | error error =>
          rw [granted] at staged
          cases staged
      | ok result =>
          obtain ⟨block, allocated⟩ := result
          rw [granted] at staged
          obtain ⟨offset, _, placed⟩ := place_placed sound (sized record List.mem_cons_self) granted
          have later := ih placed.sound
            (fun other member => sized other (List.mem_cons_of_mem record member)) staged
          have one := allocate_rooms sound.tiled granted
          rw [storeComponents_free] at later
          rw [List.length_cons]
          omega

end Rooms

section Follows

theorem indexAdd_follows (same : collection.SameIndex other)
    (added : indexAdd host collection id vec = .ok next) :
    ∃ after, indexAdd host other id vec = .ok after ∧ next.SameIndex after := by
  unfold indexAdd at added ⊢
  rw [same.index]
  cases held : collection.index with
  | none =>
      simp only [held] at added
      cases added
      exact ⟨other, rfl, same⟩
  | some index =>
      simp only [held] at added
      obtain ⟨⟨status, grown⟩, step, done⟩ := bind_ok added
      cases done
      simp only [step, bind, Except.bind, pure, Except.pure, same.ignoredFailures]
      exact ⟨_, rfl, ⟨rfl, same.indexType, rfl⟩⟩

theorem commit_follows {block place : Block} {arena : MemoryAllocator}
    (same : collection.SameIndex other)
    (committed : commit host allocator collection id vec metadata block = .ok (allocator', next)) :
    ∃ released after, commit host arena other id vec metadata place = .ok (released, after) ∧
      next.SameIndex after := by
  have index : ∃ start, indexAdd host start id vec = .ok next ∧ collection.SameIndex start := by
    unfold commit at committed
    cases found : collection.records.find? id with
    | some slot =>
        simp only [found] at committed
        obtain ⟨indexed, added, done⟩ := bind_ok committed
        cases done
        exact ⟨_, added, ⟨rfl, rfl, rfl⟩⟩
    | none =>
        simp only [found] at committed
        obtain ⟨indexed, added, done⟩ := bind_ok committed
        cases done
        exact ⟨_, added, ⟨rfl, rfl, rfl⟩⟩
  obtain ⟨start, added, unchanged⟩ := index
  have follows : ∀ moved : Collection, moved.index = other.index →
      moved.indexType = other.indexType → moved.ignoredFailures = other.ignoredFailures →
      ∃ after, indexAdd host moved id vec = .ok after ∧ next.SameIndex after := by
    intro moved isIndex isType isIgnored
    apply indexAdd_follows _ added
    exact ⟨isIndex.trans (same.index.trans unchanged.index.symm),
      isType.trans (same.indexType.trans unchanged.indexType.symm),
      isIgnored.trans (same.ignoredFailures.trans unchanged.ignoredFailures.symm)⟩
  unfold commit
  cases found : other.records.find? id with
  | some slot =>
      obtain ⟨after, indexed, agrees⟩ :=
        follows { other with records := other.records.insert id ⟨place, metadata⟩ } rfl rfl rfl
      simp only [indexed, bind, Except.bind, pure, Except.pure]
      exact ⟨_, _, rfl, agrees⟩
  | none =>
      obtain ⟨after, indexed, agrees⟩ :=
        follows { other with
          records := other.records.emplace id ⟨place, metadata⟩
          recordCount := other.recordCount + 1 } rfl rfl rfl
      simp only [indexed, bind, Except.bind, pure, Except.pure]
      exact ⟨_, _, rfl, agrees⟩

/-- With a room left, an insert does what the commit of its record does, and
leaves at most one room fewer. -/
theorem insert_follows {block : Block} {arena : MemoryAllocator} (sound : arena.Sound)
    (same : collection.SameIndex other) (valid : rejectInsert other.config id vec = none)
    (available : 0 < rooms (needed other.vectorBytes) arena.freeByOffset)
    (committed : commit host allocator collection id vec metadata block = .ok (allocator', next)) :
    ∃ released after, insert host arena other id vec metadata = .ok (.ok (), released, after) ∧
      next.SameIndex after ∧
      rooms (needed other.vectorBytes) arena.freeByOffset ≤
        rooms (needed other.vectorBytes) released.freeByOffset + 1 := by
  obtain ⟨place, allocated, granted⟩ := allocate_of_rooms other.vectorBytes other.tag available
  obtain ⟨offset, isPlace, placed⟩ := place_placed sound (rejectInsert_none valid).2.1 granted
  obtain ⟨released, after, done, agrees⟩ := @commit_follows _ _ _ _ _ _ _ other _ _ _ _ place
    (storeComponents allocated place vec) same committed
  refine ⟨released, after, ?_, agrees, ?_⟩
  · simp only [insert, valid, granted, done, bind, Except.bind, pure, Except.pure]
  · have one := allocate_rooms sound.tiled granted
    have kept : rooms (needed other.vectorBytes) allocated.freeByOffset ≤
        rooms (needed other.vectorBytes) released.freeByOffset := by
      rw [← storeComponents_free allocated place vec, (commit_ok done).2.2.2.2]
      split
      · exact release_rooms placed.sound.tiled _
      · exact le_rfl
    omega

/-- Induction over the records not committed yet: as many rooms are left for them
as there are of them. -/
theorem insertEach_follows (pairs : List (RecordInput × Block)) {arena : MemoryAllocator}
    (sound : arena.Sound) (stored : other.Stored arena []) (shows_ : other.Shows arena view)
    (same : collection.SameIndex other)
    (valid : ∀ pair ∈ pairs, rejectInsert other.config pair.1.id pair.1.vector = none)
    (available : pairs.length ≤ rooms (needed other.vectorBytes) arena.freeByOffset)
    (committed : commitAll host pairs allocator collection = .ok (allocator', next)) :
    ∃ final last, insertEach host (pairs.map Prod.fst) arena other =
        .ok (List.replicate pairs.length (.ok ()), final, last) ∧
      next.SameIndex last ∧
      Advances [] arena final other last (insertedAll view (pairs.map Prod.fst)) := by
  induction pairs generalizing arena allocator collection other view with
  | nil =>
      cases committed
      exact ⟨arena, other, rfl, same, stored.advances sound shows_⟩
  | cons pair rest ih =>
      obtain ⟨⟨middle, grown⟩, first, later⟩ := bind_ok committed
      rw [List.length_cons] at available
      obtain ⟨released, after, done, agrees, left⟩ := insert_follows sound same
        (valid pair List.mem_cons_self) (by omega) first
      have advances := insert_advances sound stored shows_ done
      have bytes := advances.same.vectorBytes
      obtain ⟨final, last, rest_, alike, onward⟩ := ih advances.sound advances.stored advances.shows
        agrees
        (fun other member => by
          rw [advances.same.config]
          exact valid other (List.mem_cons_of_mem pair member))
        (by rw [bytes]; omega) later
      refine ⟨final, last, ?_, alike, advances.trans onward⟩
      simp only [List.map_cons, insertEach, done, rest_, bind, Except.bind, pure, Except.pure,
        List.length_cons, List.replicate_succ]

end Follows

theorem alike_of_shows {arena : MemoryAllocator} (config : other.config = collection.config)
    (same : collection.SameIndex other) (stored : collection.Stored allocator [])
    (shows_ : collection.Shows allocator view) (storedOther : other.Stored arena [])
    (showsOther : other.Shows arena view) : Alike allocator collection arena other := by
  have count : other.recordCount = collection.recordCount := by
    calc other.recordCount
        = view.size := storedOther.counted.trans showsOther.size.symm
      _ = collection.recordCount := shows_.size.trans stored.counted.symm
  exact ⟨same, config, fun id => (showsOther id).trans (shows_ id).symm, count⟩

theorem insertBatch_each {records : List RecordInput} (sound : allocator.Sound)
    (stored : collection.Stored allocator []) (shows_ : collection.Shows allocator view)
    (done : insertBatch host allocator collection records = .ok (.ok (), allocator', next)) :
    ∃ final last, insertEach host records allocator collection =
        .ok (List.replicate records.length (.ok ()), final, last) ∧
      Alike allocator' next final last := by
  have advances := insertBatch_advances sound stored shows_ done
  unfold insertBatch at done
  cases valid : rejectBatch collection.config records with
  | some error =>
      simp only [valid] at done
      cases done
  | none =>
      simp only [valid] at done
      have accepted := rejectBatch_none valid
      cases staged : stage collection.vectorBytes collection.tag records [] allocator with
      | mk outcome storedAll =>
          simp only [staged] at done
          cases outcome with
          | error error => cases done
          | ok blocks =>
              obtain ⟨⟨released, committed⟩, step, last⟩ := bind_ok done
              cases last
              have available := stage_rooms records sound
                (fun record member => (accepted record member).2.1) staged
              have zipped : (records.zip blocks).map Prod.fst = records :=
                List.map_fst_zip (by simpa using (stage_length staged).ge)
              have length : (records.zip blocks).length = records.length := by
                rw [← @List.length_map _ _ (records.zip blocks) Prod.fst, zipped]
              have passes : ∀ pair ∈ records.zip blocks,
                  rejectInsert collection.config pair.1.id pair.1.vector = none := by
                intro pair member
                obtain ⟨named, sized, finite⟩ := accepted pair.1 (List.of_mem_zip member).1
                exact rejectInsert_valid named sized finite
              rw [← length] at available
              obtain ⟨final, last, each, agrees, onward⟩ :=
                insertEach_follows (records.zip blocks) sound stored shows_ ⟨rfl, rfl, rfl⟩ passes
                  available step
              rw [zipped, length] at each
              rw [zipped] at onward
              refine ⟨final, last, each, ?_⟩
              exact alike_of_shows (onward.same.config.trans advances.same.config.symm) agrees
                advances.stored advances.shows onward.stored onward.shows

end Collection

open Collection

namespace World

variable {D : Type} [FloatOrder D] {host : Host D}

/-- In every reachable world a batch that succeeds leaves what its records would,
inserted one at a time, and none of those inserts fails. -/
theorem insertBatch_one_by_one {capacity : UInt64} {garbage : Nat → UInt8}
    {commands : List Command} {statuses : List Status} {world : World} {name : Bytes}
    {collection next : Collection} {records : List RecordInput} {allocator : MemoryAllocator}
    (done : (new capacity garbage).run host commands = .ok (statuses, world))
    (found : world.engine.collections.find? name = some collection)
    (batched : collection.insertBatch host world.engine.allocator records =
      .ok (.ok (), allocator, next)) :
    ∃ final last, insertEach host records world.engine.allocator collection =
        .ok (List.replicate records.length (.ok ()), final, last) ∧
      Alike allocator next final last := by
  have owned := (run_kept done).owned
  have stored := owned.stored name collection found
  obtain ⟨view, shows_⟩ := stored.shows owned.sound
  exact insertBatch_each owned.sound stored shows_ batched

def overlappingBatch : List RecordInput := [⟨[1], [1], none⟩, ⟨[2], [2], none⟩, ⟨[2], [3], none⟩]

/-- Six chunks, two of them another collection's: the batch overwrites a record,
adds one and overwrites that too. -/
theorem insertBatch_one_by_one_of_overwrites :
    ∃ statuses world collection allocator next final last,
      (new 384 (fun _ => 0)).run (ExactLine.host [1])
        [.createCollection [97] 1 0, .createCollection [98] 17 0,
          .insert [97] [1] [0] none, .insert [98] [1] (List.replicate 17 0) none,
          .buildIndex [97] .hnsw ⟨2, 2, 0, 0⟩] = .ok (statuses, world) ∧
      world.engine.collections.find? [97] = some collection ∧
      collection.insertBatch (ExactLine.host [1]) world.engine.allocator overlappingBatch =
        .ok (.ok (), allocator, next) ∧
      insertEach (ExactLine.host [1]) overlappingBatch world.engine.allocator collection =
        .ok ([.ok (), .ok (), .ok ()], final, last) ∧
      Alike allocator next final last := by
  have reaches : ∃ statuses world collection,
      (new 384 (fun _ => 0)).run (ExactLine.host [1])
        [.createCollection [97] 1 0, .createCollection [98] 17 0,
          .insert [97] [1] [0] none, .insert [98] [1] (List.replicate 17 0) none,
          .buildIndex [97] .hnsw ⟨2, 2, 0, 0⟩] = .ok (statuses, world) ∧
      world.engine.collections.find? [97] = some collection ∧
      (collection.insertBatch (ExactLine.host [1]) world.engine.allocator
        overlappingBatch).toOption.any (fun result => result.1.isOk) = true :=
    exists_of_reached (by decide +kernel)
  obtain ⟨statuses, world, collection, done, found, told⟩ := reaches
  obtain ⟨⟨status, allocator, next⟩, batched, succeeds⟩ := ok_of_any told
  cases status with
  | error error => cases succeeds
  | ok result =>
      obtain ⟨final, last, each, alike⟩ := insertBatch_one_by_one done found batched
      exact ⟨statuses, world, collection, allocator, next, final, last, done, found, batched,
        each, alike⟩

end World

end VectorVault
