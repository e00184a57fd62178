import VectorVault.CollectionMemory

/-! What the operations of a collection do to its memory and its answers.

Each result speaks of a call that came through, whatever its index did. -/

namespace VectorVault.Collection

open Snapshot MemoryAllocator

/-- The state an operation leaves, with the view it shows. -/
structure Advances (loose : List Nat) (allocator allocator' : MemoryAllocator)
    (collection next : Collection) (view : OrderedMap RecordId RecordView) : Prop where
  sound : allocator'.Sound
  stored : next.Stored allocator' loose
  frame : Frame collection.tag allocator allocator'
  same : collection.Same next
  shows : next.Shows allocator' view

variable {D : Type} [FloatOrder D] {host : Host D} {allocator allocator' : MemoryAllocator}
  {collection next : Collection} {view : OrderedMap RecordId RecordView} {loose : List Nat}
  {id : RecordId} {vec : List F32} {metadata : Option Metadata}

theorem Stored.advances (stored : collection.Stored allocator loose) (sound : allocator.Sound)
    (shows_ : collection.Shows allocator view) :
    Advances loose allocator allocator collection collection view :=
  ⟨sound, stored, Frame.refl collection.tag allocator, Same.refl collection, shows_⟩

section Index

theorem indexAdd_ok (added : indexAdd host collection id vec = .ok next) :
    ∃ index failed, next = { collection with index := index, ignoredFailures := failed } := by
  unfold indexAdd at added
  split at added
  · cases added
    exact ⟨_, _, rfl⟩
  · obtain ⟨_, _, result⟩ := bind_ok added
    cases result
    exact ⟨_, _, rfl⟩

theorem indexRemove_ok (removed : indexRemove collection id = .ok next) :
    ∃ index failed, next = { collection with index := index, ignoredFailures := failed } := by
  unfold indexRemove at removed
  split at removed
  · cases removed
    exact ⟨_, _, rfl⟩
  · obtain ⟨_, _, result⟩ := bind_ok removed
    cases result
    exact ⟨_, _, rfl⟩

theorem commit_ok {block : Block}
    (committed : commit host allocator collection id vec metadata block = .ok (allocator', next)) :
    collection.Same next ∧ next.records = collection.records.insert id ⟨block, metadata⟩ ∧
      next.recordCount =
        (if collection.records.contains id then collection.recordCount
          else collection.recordCount + 1) ∧
      next.indexType = collection.indexType ∧
      allocator' =
        (match collection.records.find? id with
          | some slot => allocator.release slot.vectorBlock
          | none => allocator) := by
  unfold commit at committed
  cases found : collection.records.find? id with
  | some slot =>
      have present : collection.records.contains id = true := by
        simp only [OrderedMap.contains, found, Option.isSome_some]
      simp only [found] at committed
      obtain ⟨indexed, added, result⟩ := bind_ok committed
      obtain ⟨index, failed, shape⟩ := indexAdd_ok added
      cases result
      rw [shape]
      exact ⟨⟨rfl, rfl, rfl⟩, rfl, by rw [if_pos present], rfl, rfl⟩
  | none =>
      have missing : ¬ collection.records.contains id = true := by
        simp only [OrderedMap.contains, found, Option.isSome_none, Bool.false_eq_true,
          not_false_eq_true]
      simp only [found] at committed
      obtain ⟨indexed, added, result⟩ := bind_ok committed
      obtain ⟨index, failed, shape⟩ := indexAdd_ok added
      cases result
      rw [shape]
      exact ⟨⟨rfl, rfl, rfl⟩, OrderedMap.emplace_of_absent _ _ _ found, by rw [if_neg missing], rfl,
        rfl⟩

end Index

section Memory

theorem release_slot (sound : allocator.Sound) {slot : RecordSlot} (backed : collection.Backed slot)
    {tag bytes : Nat} {offsets : List Nat}
    (holds : allocator.Holds tag bytes (slot.arenaOffset.toList ++ offsets)) :
    (allocator.release slot.vectorBlock).Sound ∧
      (allocator.release slot.vectorBlock).Holds tag bytes offsets ∧
      Frame tag allocator (allocator.release slot.vectorBlock) ∧
      (allocator.release slot.vectorBlock).arena = allocator.arena := by
  rcases backed with ⟨offset, block⟩ | ⟨offset, block, _⟩
  · have isOffset : slot.arenaOffset = some offset := by
      simp only [RecordSlot.arenaOffset, block]
    rw [isOffset] at holds
    rw [block]
    exact release_owned sound holds
  · have isMapped : slot.arenaOffset = none := by
      simp only [RecordSlot.arenaOffset, block]
    rw [isMapped] at holds
    rw [block, release_mapped]
    exact ⟨sound, holds, Frame.refl tag allocator, rfl⟩

theorem commit_memory {offset : Nat} (sound : allocator.Sound)
    (stored : collection.Stored allocator (offset :: loose))
    (committed : commit host allocator collection id vec metadata
      ⟨.arena offset, collection.vectorBytes⟩ = .ok (allocator', next)) :
    allocator'.Sound ∧
      allocator'.Holds collection.tag collection.vectorBytes (next.arenaOffsets ++ loose) ∧
      Frame collection.tag allocator allocator' ∧ allocator'.arena = allocator.arena ∧
      next.recordCount = next.records.size := by
  rcases commit_ok committed with ⟨_, records, count, _, released⟩
  have offsets := offsetsOf_insert collection.records id
    ⟨⟨.arena offset, collection.vectorBytes⟩, metadata⟩
  rw [← records] at offsets
  cases found : collection.records.find? id with
  | none =>
      rw [OrderedMap.erase_of_absent _ _ found] at offsets
      rw [found] at released
      simp only at released
      have missing : ¬ collection.records.contains id = true := by
        simp only [OrderedMap.contains, found, Option.isSome_none, Bool.false_eq_true,
          not_false_eq_true]
      rw [if_neg missing, stored.counted] at count
      rw [records, OrderedMap.size_insert_of_absent _ _ _ found, released]
      refine ⟨sound, stored.holds.perm ?_, Frame.refl collection.tag allocator, rfl, count⟩
      exact List.perm_middle.trans (offsets.symm.append_right loose)
  | some slot =>
      rw [found] at released
      simp only at released
      have present : collection.records.contains id = true := by
        simp only [OrderedMap.contains, found, Option.isSome_some]
      rw [if_pos present, stored.counted] at count
      have before := offsetsOf_present found
      have split : (collection.arenaOffsets ++ offset :: loose).Perm
          (slot.arenaOffset.toList ++ (next.arenaOffsets ++ loose)) := by
        calc collection.arenaOffsets ++ offset :: loose
            |>.Perm ((slot.arenaOffset.toList ++ offsetsOf (collection.records.erase id)) ++
              offset :: loose) := before.append_right _
          _ |>.Perm (slot.arenaOffset.toList ++
              (offset :: (offsetsOf (collection.records.erase id) ++ loose))) := by
            rw [List.append_assoc]
            exact List.perm_middle.append_left _
          _ |>.Perm (slot.arenaOffset.toList ++ (next.arenaOffsets ++ loose)) :=
            (offsets.symm.append_right loose).append_left _
      obtain ⟨soundNext, holds, frame, arena⟩ := release_slot sound
        (stored.backed id slot found) (stored.holds.perm split)
      rw [records, OrderedMap.size_insert_of_present _ _ _ _ found, released]
      exact ⟨soundNext, holds, frame, arena, count⟩

/-- A staged block becomes the slot of its record. The arena's bytes stay, so
every other slot reads as before. -/
theorem commit_advances {offset : Nat} (sound : allocator.Sound)
    (stored : collection.Stored allocator (offset :: loose))
    (shows_ : collection.Shows allocator view) (named : id ≠ [])
    (content : collection.components allocator
      ⟨⟨.arena offset, collection.vectorBytes⟩, metadata⟩ = .ok vec)
    (committed : commit host allocator collection id vec metadata
      ⟨.arena offset, collection.vectorBytes⟩ = .ok (allocator', next)) :
    Advances loose allocator allocator' collection next (view.insert id ⟨vec, metadata⟩) ∧
      allocator'.arena = allocator.arena := by
  rcases commit_ok committed with ⟨same, records, _, _, _⟩
  rcases commit_memory sound stored committed with ⟨soundNext, holds, frame, arena, counted⟩
  have kept := components_unwritten collection frame.capacity arena
  have backed : ∀ other slot, next.records.find? other = some slot → next.Backed slot := by
    intro other slot held
    rw [records, OrderedMap.find_insert] at held
    rw [Backed, same.vectorBytes, same.mappedRegion]
    by_cases here : other = id
    · rw [if_pos here, Option.some.injEq] at held
      rw [← held]
      exact Or.inl ⟨offset, rfl⟩
    · rw [if_neg here] at held
      exact stored.backed other slot held
  have unnamed : next.records.find? [] = none := by
    rw [records, OrderedMap.find_insert_of_ne _ _ (Ne.symm named)]
    exact stored.named
  have shown := shows_.insert same records ((kept _).trans content) (fun _ held _ => kept held)
  refine ⟨⟨soundNext, ⟨counted, unnamed, backed, ?_⟩, frame, same, shown⟩, arena⟩
  rw [same.tag, same.vectorBytes]
  exact holds

theorem components_placed {tag offset : Nat} (sized : vec.length = collection.config.dimensionality.toNat)
    (placed : Placed allocator allocator' tag offset (putVector vec)) :
    collection.components allocator' ⟨⟨.arena offset, collection.vectorBytes⟩, metadata⟩ =
      .ok vec := by
  have bytes : (putVector vec).length = collection.vectorBytes := by
    rw [length_putVector, sized, vectorBytes]
  have read : allocator'.read offset collection.vectorBytes = putVector vec := by
    apply List.ext_getElem
    · rw [MemoryAllocator.read, List.length_map, List.length_range, bytes]
    · intro index _ within
      simp only [MemoryAllocator.read, List.getElem_map, List.getElem_range]
      exact placed.stored index within
  have inside := placed.inside
  rw [bytes, ← placed.capacity] at inside
  simp only [components, readBlock, if_pos inside, read]
  exact congrArg Except.ok (getVector_putVector vec)

theorem place_placed {block : Block} {allocated : MemoryAllocator} (sound : allocator.Sound)
    (sized : vec.length = collection.config.dimensionality.toNat)
    (granted : allocator.allocate collection.vectorBytes collection.tag = .ok (block, allocated)) :
    ∃ offset, block = ⟨.arena offset, collection.vectorBytes⟩ ∧
      Placed allocator (storeComponents allocated block vec) collection.tag offset
        (putVector vec) := by
  have bytes : (putVector vec).length = collection.vectorBytes := by
    rw [length_putVector, sized, vectorBytes]
  have fits := collection.vectorBytes_fits
  rw [← bytes] at granted fits
  obtain ⟨offset, isBlock, placed⟩ := allocate_placed sound fits granted
  rw [bytes] at isBlock
  have isStore : storeComponents allocated block vec = allocated.store offset (putVector vec) := by
    rw [isBlock]
    rfl
  rw [isStore]
  exact ⟨offset, isBlock, placed⟩

theorem place_advances {block : Block} {allocated : MemoryAllocator} (sound : allocator.Sound)
    (stored : collection.Stored allocator loose) (shows_ : collection.Shows allocator view)
    (sized : vec.length = collection.config.dimensionality.toNat)
    (granted : allocator.allocate collection.vectorBytes collection.tag = .ok (block, allocated)) :
    ∃ offset, block = ⟨.arena offset, collection.vectorBytes⟩ ∧
      Placed allocator (storeComponents allocated block vec) collection.tag offset
        (putVector vec) ∧
      Advances (offset :: loose) allocator (storeComponents allocated block vec) collection
        collection view := by
  obtain ⟨offset, isBlock, placed⟩ := place_placed sound sized granted
  have bytes : (putVector vec).length = collection.vectorBytes := by
    rw [length_putVector, sized, vectorBytes]
  have kept := fun other held found =>
    @Stored.kept_grows _ _ _ _ stored placed.grows other held found
  have holds := stored.holds
  rw [← bytes] at holds
  have grown := placed.holds holds
  rw [bytes] at grown
  refine ⟨offset, isBlock, placed, placed.sound, ⟨stored.counted, stored.named, stored.backed, ?_⟩,
    placed.frame, Same.refl collection, shows_.kept (Same.refl collection) rfl kept⟩
  exact grown.perm List.perm_middle.symm

theorem Advances.trans {middle : MemoryAllocator} {last : Collection} {later : List Nat}
    {viewLast : OrderedMap RecordId RecordView}
    (first : Advances loose allocator middle collection next view)
    (second : Advances later middle allocator' next last viewLast) :
    Advances later allocator allocator' collection last viewLast := by
  have frame := second.frame
  rw [first.same.tag] at frame
  exact ⟨second.sound, second.stored, first.frame.trans frame, first.same.trans second.same,
    second.shows⟩

end Memory

section Operations

theorem firstNonFinite_valid (finite : firstNonFinite vec = vec.length) :
    ∀ component ∈ vec, component.isFinite = true := by
  intro component member
  have none := List.findIdx_eq_length.mp finite component member
  simpa using none

theorem rejectInsert_none (valid : rejectInsert collection.config id vec = none) :
    id ≠ [] ∧ vec.length = collection.config.dimensionality.toNat ∧
      ∀ component ∈ vec, component.isFinite = true := by
  unfold rejectInsert at valid
  split at valid
  · cases valid
  · next named =>
      split at valid
      · cases valid
      · next sized =>
          split at valid
          · cases valid
          · next finite =>
              exact ⟨named, not_not.mp sized, firstNonFinite_valid (not_not.mp finite)⟩

theorem rejectInsert_valid (named : id ≠ []) (sized : vec.length = collection.config.dimensionality.toNat)
    (finite : ∀ component ∈ vec, component.isFinite = true) :
    rejectInsert collection.config id vec = none := by
  have every : firstNonFinite vec = vec.length := by
    apply List.findIdx_eq_length.mpr
    intro component member
    rw [finite component member]
    rfl
  rw [rejectInsert, if_neg named, if_neg (not_not.mpr sized), if_neg (not_not.mpr every)]

def inserted (view : OrderedMap RecordId RecordView) (id : RecordId) (vec : List F32)
    (metadata : Option Metadata) : Status → OrderedMap RecordId RecordView
  | .ok _ => view.insert id ⟨vec, metadata⟩
  | .error _ => view

theorem insert_advances {status : Status} (sound : allocator.Sound)
    (stored : collection.Stored allocator []) (shows_ : collection.Shows allocator view)
    (done : insert host allocator collection id vec metadata = .ok (status, allocator', next)) :
    Advances [] allocator allocator' collection next (inserted view id vec metadata status) := by
  unfold insert at done
  cases valid : rejectInsert collection.config id vec with
  | some error =>
      simp only [valid] at done
      cases done
      exact stored.advances sound shows_
  | none =>
      simp only [valid] at done
      obtain ⟨named, sized, _⟩ := rejectInsert_none valid
      cases granted : allocator.allocate collection.vectorBytes collection.tag with
      | error error =>
          simp only [granted] at done
          cases done
          exact stored.advances sound shows_
      | ok result =>
          obtain ⟨block, allocated⟩ := result
          simp only [granted] at done
          obtain ⟨⟨released, committed⟩, step, last⟩ := bind_ok done
          cases last
          obtain ⟨offset, isBlock, placed, staged⟩ := place_advances sound stored shows_ sized granted
          rw [isBlock] at step placed staged
          have content := @components_placed _ _ collection vec metadata _ _ sized placed
          have after := commit_advances staged.sound staged.stored staged.shows named content step
          exact staged.trans after.1

def removed (view : OrderedMap RecordId RecordView) (id : RecordId) :
    Status → OrderedMap RecordId RecordView
  | .ok _ => view.erase id
  | .error _ => view

theorem remove_advances {status : Status} (sound : allocator.Sound)
    (stored : collection.Stored allocator []) (shows_ : collection.Shows allocator view)
    (done : remove allocator collection id = .ok (status, allocator', next)) :
    Advances [] allocator allocator' collection next (removed view id status) := by
  unfold remove at done
  cases found : collection.records.find? id with
  | none =>
      simp only [found] at done
      cases done
      exact stored.advances sound shows_
  | some slot =>
      simp only [found] at done
      obtain ⟨indexed, removed, last⟩ := bind_ok done
      obtain ⟨index, failed, shape⟩ := indexRemove_ok removed
      cases last
      have offsets := offsetsOf_present found
      have holds := stored.holds.perm (offsets.append_right [])
      rw [List.append_assoc] at holds
      obtain ⟨soundNext, kept, frame, arena⟩ :=
        release_slot sound (stored.backed id slot found) holds
      have same : collection.Same next := by
        rw [shape]
        exact ⟨rfl, rfl, rfl⟩
      have records : next.records = collection.records.erase id := by
        rw [shape]
      have counted : next.recordCount = next.records.size := by
        have size := OrderedMap.size_erase_of_present _ _ _ found
        rw [records, shape]
        simp only
        rw [stored.counted]
        omega
      have named : next.records.find? [] = none := by
        rw [records, OrderedMap.find_erase, stored.named, ite_self]
      have backed : ∀ other held, next.records.find? other = some held →
          next.Backed held := by
        intro other held there
        rw [records, OrderedMap.find_erase] at there
        rw [Backed, same.vectorBytes, same.mappedRegion]
        split at there
        · cases there
        · exact stored.backed other held there
      have owned : (allocator.release slot.vectorBlock).Holds next.tag next.vectorBytes
          (next.arenaOffsets ++ []) := by
        rw [same.tag, same.vectorBytes, arenaOffsets, records]
        exact kept
      have unread : ∀ other held, collection.records.find? other = some held →
          collection.components (allocator.release slot.vectorBlock) held =
            collection.components allocator held := by
        intro _ held _
        exact components_unwritten collection frame.capacity arena held
      have shown := shows_.erase same records unread
      exact ⟨soundNext, ⟨counted, named, backed, owned⟩, frame, same, shown⟩

end Operations

section Batch

def arenaBlock (bytes offset : Nat) : Block := ⟨.arena offset, bytes⟩

def Staged (allocator : MemoryAllocator) (collection : Collection)
    (pairs : List (RecordInput × Nat)) : Prop :=
  ∀ pair ∈ pairs, collection.components allocator
    ⟨arenaBlock collection.vectorBytes pair.2, pair.1.metadata⟩ = .ok pair.1.vector

theorem Advances.perm {other : List Nat}
    (advances : Advances loose allocator allocator' collection next view)
    (permuted : loose.Perm other) : Advances other allocator allocator' collection next view :=
  ⟨advances.sound, ⟨advances.stored.counted, advances.stored.named, advances.stored.backed,
    advances.stored.holds.perm (permuted.append_left _)⟩, advances.frame, advances.same,
    advances.shows⟩

theorem Stored.staged_grows (stored : collection.Stored allocator loose)
    (grows : Grows allocator allocator') {offset : Nat} (member : offset ∈ loose)
    (metadata : Option Metadata) :
    collection.components allocator' ⟨arenaBlock collection.vectorBytes offset, metadata⟩ =
      collection.components allocator ⟨arenaBlock collection.vectorBytes offset, metadata⟩ := by
  apply components_kept grows.capacity
  intro other isOther index within
  rcases stored.holds.live (List.mem_append_right _ member) with ⟨held, live, _, requested⟩
  cases isOther
  rw [← requested] at within
  exact grows.bytes offset held live index within

theorem release_staged (sound : allocator.Sound) (stored : collection.Stored allocator loose)
    (shows_ : collection.Shows allocator view) :
    Advances [] allocator ((loose.map (arenaBlock collection.vectorBytes)).foldl
      MemoryAllocator.release allocator) collection collection view := by
  rcases releases_owned collection.vectorBytes loose sound
    (stored.holds.perm List.perm_append_comm) with ⟨soundAfter, holds, frame, arena⟩
  refine ⟨soundAfter, ⟨stored.counted, stored.named, stored.backed, ?_⟩, frame,
    Same.refl collection, ?_⟩
  · rw [List.append_nil]
    exact holds
  · apply shows_.kept (Same.refl collection) rfl
    intro _ held _
    exact components_unwritten collection frame.capacity arena held

/-- Induction over the records not staged yet; `taken` are the offsets staged so
far. A failed allocation gives all of them back. -/
theorem stage_spec (records : List RecordInput) (taken : List Nat) (sound : allocator.Sound)
    (stored : collection.Stored allocator taken) (shows_ : collection.Shows allocator view)
    (sized : ∀ record ∈ records,
      record.vector.length = collection.config.dimensionality.toNat) :
    (∃ error, (stage collection.vectorBytes collection.tag records
        (taken.map (arenaBlock collection.vectorBytes)) allocator).1 = .error error ∧
      Advances [] allocator (stage collection.vectorBytes collection.tag records
        (taken.map (arenaBlock collection.vectorBytes)) allocator).2 collection collection view) ∨
    ∃ fresh : List Nat, fresh.length = records.length ∧
      (stage collection.vectorBytes collection.tag records
        (taken.map (arenaBlock collection.vectorBytes)) allocator).1 =
          .ok ((taken ++ fresh).map (arenaBlock collection.vectorBytes)) ∧
      Advances (taken ++ fresh) allocator (stage collection.vectorBytes collection.tag records
        (taken.map (arenaBlock collection.vectorBytes)) allocator).2 collection collection view ∧
      Grows allocator (stage collection.vectorBytes collection.tag records
        (taken.map (arenaBlock collection.vectorBytes)) allocator).2 ∧
      Staged (stage collection.vectorBytes collection.tag records
        (taken.map (arenaBlock collection.vectorBytes)) allocator).2 collection
        (records.zip fresh) := by
  induction records generalizing allocator taken with
  | nil =>
      right
      refine ⟨[], rfl, by rw [stage, List.append_nil], ?_, Grows.refl allocator, ?_⟩
      · rw [List.append_nil]
        exact stored.advances sound shows_
      · intro pair member
        cases member
  | cons record rest ih =>
      cases granted : allocator.allocate collection.vectorBytes collection.tag with
      | error error =>
          left
          simp only [stage, granted]
          exact ⟨error, rfl, release_staged sound stored shows_⟩
      | ok result =>
          obtain ⟨block, allocated⟩ := result
          have sizedHere := sized record List.mem_cons_self
          obtain ⟨offset, isBlock, placed, advanced⟩ :=
            place_advances sound stored shows_ sizedHere granted
          have advances := advanced.perm (List.perm_append_singleton offset taken).symm
          have content := @components_placed _ _ collection record.vector record.metadata _ _
            sizedHere placed
          have grown : taken.map (arenaBlock collection.vectorBytes) ++ [block] =
              (taken ++ [offset]).map (arenaBlock collection.vectorBytes) := by
            rw [List.map_append, isBlock]
            rfl
          have later := ih (taken ++ [offset]) advances.sound advances.stored advances.shows
            (fun other member => sized other (List.mem_cons_of_mem record member))
          simp only [stage, granted, grown]
          rcases later with ⟨error, failed, after⟩ | ⟨fresh, length, result, after, grows, staged⟩
          · left
            exact ⟨error, failed, advances.trans after⟩
          · right
            rw [List.append_assoc, List.singleton_append] at result after
            refine ⟨offset :: fresh, by rw [List.length_cons, List.length_cons, length], result,
              advances.trans after, placed.grows.trans grows, ?_⟩
            intro pair member
            rw [List.zip_cons_cons, List.mem_cons] at member
            rcases member with first | others
            · rw [first, ← content]
              exact advances.stored.staged_grows grows
                (List.mem_append_right taken List.mem_cons_self) record.metadata
            · exact staged pair others

def insertedAll (view : OrderedMap RecordId RecordView) (records : List RecordInput) :
    OrderedMap RecordId RecordView :=
  records.foldl (fun view record => view.insert record.id ⟨record.vector, record.metadata⟩) view

def insertedBatch (view : OrderedMap RecordId RecordView) (records : List RecordInput) :
    Status → OrderedMap RecordId RecordView
  | .ok _ => insertedAll view records
  | .error _ => view

theorem commitAll_advances (pairs : List (RecordInput × Nat)) (sound : allocator.Sound)
    (stored : collection.Stored allocator (pairs.map Prod.snd))
    (shows_ : collection.Shows allocator view) (named : ∀ pair ∈ pairs, pair.1.id ≠ [])
    (staged : Staged allocator collection pairs)
    (committed : commitAll host
      (pairs.map (fun pair => (pair.1, arenaBlock collection.vectorBytes pair.2)))
      allocator collection = .ok (allocator', next)) :
    Advances [] allocator allocator' collection next (insertedAll view (pairs.map Prod.fst)) := by
  induction pairs generalizing allocator collection view with
  | nil =>
      cases committed
      exact stored.advances sound shows_
  | cons pair rest ih =>
      simp only [List.map_cons, commitAll] at committed
      obtain ⟨⟨middle, indexed⟩, step, last⟩ := bind_ok committed
      obtain ⟨first, arena⟩ := commit_advances sound stored shows_
        (named pair List.mem_cons_self) (staged pair List.mem_cons_self) step
      have stagedRest : Staged middle indexed rest := by
        intro other member
        rw [first.same.components, first.same.vectorBytes,
          ← staged other (List.mem_cons_of_mem pair member)]
        exact components_unwritten collection first.frame.capacity arena _
      rw [← first.same.vectorBytes] at last
      have final := ih first.sound first.stored first.shows
        (fun other member => named other (List.mem_cons_of_mem pair member)) stagedRest last
      exact first.trans final

theorem rejectRecords_none {records : List RecordInput} {position : Nat}
    (valid : rejectRecords collection.config position records = none) :
    ∀ record ∈ records, record.id ≠ [] ∧
      record.vector.length = collection.config.dimensionality.toNat ∧
      ∀ component ∈ record.vector, component.isFinite = true := by
  induction records generalizing position with
  | nil =>
      intro record member
      cases member
  | cons first rest ih =>
      rw [rejectRecords] at valid
      cases here : rejectBatchRecord collection.config position first with
      | some error =>
          rw [here] at valid
          cases valid
      | none =>
          rw [here] at valid
          have passed : rejectInsert collection.config first.id first.vector = none := by
            unfold rejectBatchRecord at here
            unfold rejectInsert
            split at here
            · cases here
            · split at here
              · cases here
              · split at here
                · cases here
                · next named sized finite => rw [if_neg named, if_neg sized, if_neg finite]
          intro record member
          rcases List.mem_cons.mp member with isFirst | later
          · rw [isFirst]
            exact rejectInsert_none passed
          · exact ih valid record later

theorem rejectBatch_none {records : List RecordInput}
    (valid : rejectBatch collection.config records = none) :
    ∀ record ∈ records, record.id ≠ [] ∧
      record.vector.length = collection.config.dimensionality.toNat ∧
      ∀ component ∈ record.vector, component.isFinite = true := by
  unfold rejectBatch at valid
  split at valid
  · cases valid
  · exact rejectRecords_none valid

theorem insertBatch_advances {records : List RecordInput} {status : Status}
    (sound : allocator.Sound) (stored : collection.Stored allocator [])
    (shows_ : collection.Shows allocator view)
    (done : insertBatch host allocator collection records = .ok (status, allocator', next)) :
    Advances [] allocator allocator' collection next (insertedBatch view records status) := by
  unfold insertBatch at done
  cases valid : rejectBatch collection.config records with
  | some error =>
      simp only [valid] at done
      cases done
      exact stored.advances sound shows_
  | none =>
      simp only [valid] at done
      have accepted := rejectBatch_none valid
      have outcome := stage_spec records [] sound stored shows_
        (fun record member => (accepted record member).2.1)
      rw [List.map_nil] at outcome
      rcases outcome with ⟨error, failed, after⟩ | ⟨fresh, length, result, after, _, staged⟩
      · rw [show stage collection.vectorBytes collection.tag records [] allocator =
          (.error error, (stage collection.vectorBytes collection.tag records [] allocator).2) from
          Prod.ext failed rfl] at done
        cases done
        exact after
      · rw [show stage collection.vectorBytes collection.tag records [] allocator =
          (.ok (([] ++ fresh).map (arenaBlock collection.vectorBytes)),
            (stage collection.vectorBytes collection.tag records [] allocator).2) from
          Prod.ext result rfl] at done
        obtain ⟨⟨released, committed⟩, step, last⟩ := bind_ok done
        cases last
        have zipped : records.zip (([] ++ fresh).map (arenaBlock collection.vectorBytes)) =
            (records.zip fresh).map
              (fun pair => (pair.1, arenaBlock collection.vectorBytes pair.2)) := by
          rw [List.nil_append, List.zip_map_right]
          rfl
        have firsts : (records.zip fresh).map Prod.fst = records :=
          List.map_fst_zip (by rw [length])
        have seconds : (records.zip fresh).map Prod.snd = fresh :=
          List.map_snd_zip (by rw [length])
        rw [zipped] at step
        have storedAll := after.stored
        rw [List.nil_append, ← seconds] at storedAll
        have named : ∀ pair ∈ records.zip fresh, pair.1.id ≠ [] := by
          intro pair member
          exact (accepted pair.1 (List.of_mem_zip member).1).1
        have final := commitAll_advances (records.zip fresh) after.sound storedAll after.shows named
          staged step
        rw [firsts] at final
        exact after.trans final

end Batch

section Indexing

theorem Stored.reindexed (stored : collection.Stored allocator loose) (sound : allocator.Sound)
    (shows_ : collection.Shows allocator view) (same : collection.Same next)
    (records : next.records = collection.records)
    (count : next.recordCount = collection.recordCount) :
    Advances loose allocator allocator collection next view := by
  have shown := shows_.kept same records (fun _ _ _ => rfl)
  refine ⟨sound, ⟨?_, ?_, ?_, ?_⟩, Frame.refl collection.tag allocator, same, shown⟩
  · rw [count, records]
    exact stored.counted
  · rw [records]
    exact stored.named
  · intro id slot found
    rw [records] at found
    rw [Backed, same.vectorBytes, same.mappedRegion]
    exact stored.backed id slot found
  · rw [same.tag, same.vectorBytes, arenaOffsets, records]
    exact stored.holds

theorem buildIndex_ok {type : IndexType} {params : IndexParams} {status : Status}
    (done : buildIndex host allocator collection type params = .ok (status, next)) :
    collection.Same next ∧ next.records = collection.records ∧
      next.recordCount = collection.recordCount := by
  unfold buildIndex at done
  split at done
  · cases done
    exact ⟨Same.refl collection, rfl, rfl⟩
  · obtain ⟨⟨added, index⟩, _, result⟩ := bind_ok done
    cases added with
    | error error =>
        cases result
        exact ⟨Same.refl collection, rfl, rfl⟩
    | ok _ =>
        cases result
        exact ⟨⟨rfl, rfl, rfl⟩, rfl, rfl⟩

theorem queryWith_ok
    {search : Index → List F32 → UInt32 → QueryParams → Run (List (Candidate D) × Index)}
    {q : List F32} {k : UInt32} {params : QueryParams} {answer : Result (List (Neighbor D))}
    (done : queryWith host search allocator collection q k params = .ok (answer, next)) :
    next = collection ∨ ∃ index candidates after, collection.index = some index ∧
      search index q k params = .ok (candidates, after) ∧
      next = { collection with index := some after } := by
  unfold queryWith at done
  split at done
  · cases done
    exact Or.inl rfl
  · split at done
    · cases done
      exact Or.inl rfl
    · cases held : collection.index with
      | none =>
          simp only [held] at done
          obtain ⟨_, _, result⟩ := bind_ok done
          cases result
          exact Or.inl rfl
      | some index =>
          simp only [held] at done
          split at done
          · obtain ⟨⟨candidates, after⟩, searched, rest⟩ := bind_ok done
            obtain ⟨_, _, result⟩ := bind_ok rest
            cases result
            exact Or.inr ⟨index, candidates, after, rfl, searched, rfl⟩
          · obtain ⟨_, _, result⟩ := bind_ok done
            cases result
            exact Or.inl rfl

end Indexing

end VectorVault.Collection
