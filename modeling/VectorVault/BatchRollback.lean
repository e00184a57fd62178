import VectorVault.AllocatorRestored
import VectorVault.EngineConfiguration

/-! A failed batch leaves nothing behind.

Blocks are staged for all records before any is committed. When one cannot be
had, those already staged are released, and the live table is what it was; the
rest of the allocator follows from it. -/

namespace VectorVault

open Snapshot MemoryAllocator

namespace Collection

section Stage

variable {allocator : MemoryAllocator} {collection : Collection}

theorem storeComponents_pruned (pruned : allocator.Pruned) (block : Block) (vec : List F32) :
    (storeComponents allocator block vec).Pruned := by
  unfold storeComponents
  split
  · exact ⟨pruned.tagBytes, pruned.tagBlocks⟩
  · exact pruned

theorem releases_pruned (pruned : allocator.Pruned) (blocks : List Block) :
    (blocks.foldl MemoryAllocator.release allocator).Pruned := by
  induction blocks generalizing allocator with
  | nil => exact pruned
  | cons block rest ih => exact ih (release_pruned pruned block)

/-- The blocks taken since `base` are live, and without them the live table is
that of `base`. -/
structure TakenSince (base allocator : MemoryAllocator) (taken : List Nat) : Prop where
  distinct : taken.Nodup
  live : ∀ offset ∈ taken, ∃ record, allocator.live.find? offset = some record
  rest : ∀ offset, base.live.find? offset =
    if offset ∈ taken then none else allocator.live.find? offset

theorem takenSince_nil (allocator : MemoryAllocator) : TakenSince allocator allocator [] :=
  ⟨List.nodup_nil, fun _ member => by (cases member), fun _ => rfl⟩

theorem TakenSince.placed {base placed : MemoryAllocator} {taken : List Nat} {tag offset : Nat}
    {content : Bytes} (since : TakenSince base allocator taken)
    (place : Placed allocator placed tag offset content) :
    TakenSince base placed (taken ++ [offset]) := by
  have table : ∀ other, placed.live.find? other =
      if other = offset then some ⟨offset, needed content.length, content.length, tag⟩
      else allocator.live.find? other := by
    intro other
    rw [place.live, OrderedMap.find_insert]
  have fresh : offset ∉ taken := by
    intro member
    obtain ⟨record, held⟩ := since.live offset member
    rw [place.absent] at held
    cases held
  refine ⟨?_, ?_, ?_⟩
  · exact List.nodup_append_comm.mp (List.nodup_cons.mpr ⟨fresh, since.distinct⟩)
  · intro other member
    rw [table other]
    split
    · exact ⟨_, rfl⟩
    · next elsewhere =>
        apply since.live other
        rcases List.mem_append.mp member with old | new
        · exact old
        · exact absurd (List.mem_singleton.mp new) elsewhere
  · intro other
    rw [since.rest other, table other]
    by_cases here : other = offset
    · have member : other ∈ taken ++ [offset] := by simp [here]
      rw [if_pos member]
      split
      · rfl
      · rw [here, place.absent]
    · have same : other ∈ taken ++ [offset] ↔ other ∈ taken := by simp [here]
      rw [if_neg here]
      simp only [same]

/-- Induction over the records not staged yet: a failure gives back what was
taken since `base`. -/
theorem stage_outcome {base : MemoryAllocator} (records : List RecordInput) (taken : List Nat)
    (positive : 0 < collection.vectorBytes) (sound : allocator.Sound)
    (pruned : allocator.Pruned) (grows : Grows base allocator)
    (since : TakenSince base allocator taken)
    (sized : ∀ record ∈ records,
      record.vector.length = collection.config.dimensionality.toNat) :
    let outcome := stage collection.vectorBytes collection.tag records
      (taken.map (arenaBlock collection.vectorBytes)) allocator
    outcome.2.Pruned ∧ ∀ error, outcome.1 = .error error →
      outcome.2.Sound ∧ Grows base outcome.2 ∧ outcome.2.live = base.live := by
  induction records generalizing allocator taken with
  | nil => exact ⟨pruned, fun error failed => by (cases failed)⟩
  | cons record rest ih =>
      cases granted : allocator.allocate collection.vectorBytes collection.tag with
      | error error =>
          simp only [stage, granted]
          refine ⟨releases_pruned pruned _, ?_⟩
          intro _ _
          obtain ⟨soundAfter, arena, table⟩ :=
            releases_live collection.vectorBytes taken sound since.distinct since.live
          have capacity : ∀ (blocks : List Block) (start : MemoryAllocator),
              (blocks.foldl MemoryAllocator.release start).capacityBytes = start.capacityBytes := by
            intro blocks
            induction blocks with
            | nil => exact fun _ => rfl
            | cons block _ ih => exact fun start => (ih _).trans (release_capacity start block)
          have live := OrderedMap.ext_find _ _
            (fun offset => (table offset).trans (since.rest offset).symm)
          refine ⟨soundAfter, ⟨(capacity _ _).trans grows.capacity, ?_, ?_⟩, live⟩
          · intro offset record held
            rw [← live] at held
            exact held
          · intro offset record held index within
            exact (congrFun arena _).trans (grows.bytes offset record held index within)
      | ok result =>
          obtain ⟨block, allocated⟩ := result
          obtain ⟨offset, isBlock, placed⟩ :=
            place_placed sound (sized record List.mem_cons_self) granted
          have grown : taken.map (arenaBlock collection.vectorBytes) ++ [block] =
              (taken ++ [offset]).map (arenaBlock collection.vectorBytes) := by
            rw [List.map_append, isBlock]
            rfl
          have prunedNext := storeComponents_pruned
            (allocate_pruned sound pruned positive collection.vectorBytes_fits granted) block
            record.vector
          simp only [stage, granted, grown]
          exact ih (taken ++ [offset]) placed.sound prunedNext (grows.trans placed.grows)
            (since.placed placed)
            (fun other member => sized other (List.mem_cons_of_mem record member))

end Stage

section Rejection

/-- What is wrong with a record of a batch: the first of three checks it fails. -/
inductive Blames (config : CollectionConfig) (position : Nat) (record : RecordInput) :
    Error → Prop where
  | identifier (empty : record.id = []) :
      Blames config position record
        ⟨.invalidIdentifier,
          text "record at batch index " ++ decimal position ++ text " has an empty identifier"⟩
  | dimension (named : record.id ≠ [])
      (mismatch : record.vector.length ≠ config.dimensionality.toNat) :
      Blames config position record
        ⟨.dimensionMismatch,
          text "record at batch index " ++ decimal position ++ text " has " ++
            decimal record.vector.length ++
            text " components but the collection dimensionality is " ++
            decimal config.dimensionality.toNat⟩
  | finiteness (named : record.id ≠ [])
      (sized : record.vector.length = config.dimensionality.toNat) (component : Nat)
      (inside : component < record.vector.length)
      (infinite : record.vector[component].isFinite = false)
      (first : ∀ earlier (before : earlier < component),
        record.vector[earlier].isFinite = true) :
      Blames config position record
        ⟨.invalidValue,
          text "record at batch index " ++ decimal position ++
            text " has a non-finite component at index " ++ decimal component⟩

structure Acceptable (config : CollectionConfig) (record : RecordInput) : Prop where
  named : record.id ≠ []
  sized : record.vector.length = config.dimensionality.toNat
  finite : ∀ component ∈ record.vector, component.isFinite = true

/-- Why a batch fails: its size, its first invalid record, or the memory. -/
inductive BatchFailure (config : CollectionConfig) (records : List RecordInput) : Error → Prop where
  | size (outside : records.length < 1 ∨ 10000 < records.length) :
      BatchFailure config records
        ⟨.invalidArgument,
          text "batch must contain 1 to 10000 records (got " ++ decimal records.length ++ text ")"⟩
  | record {error : Error} (position : Nat) (inside : position < records.length)
      (earlier : ∀ other (before : other < position), Acceptable config records[other])
      (blames : Blames config position records[position] error) :
      BatchFailure config records error
  | exhausted {error : Error} (valid : ∀ record ∈ records, Acceptable config record)
      (category : error.category = .allocationFailure) :
      BatchFailure config records error

variable {config : CollectionConfig}

theorem rejectBatchRecord_some {position : Nat} {record : RecordInput} {error : Error}
    (rejected : rejectBatchRecord config position record = some error) :
    Blames config position record error := by
  unfold rejectBatchRecord at rejected
  split at rejected
  · next empty =>
      cases rejected
      exact .identifier empty
  · next named =>
      split at rejected
      · next mismatch =>
          cases rejected
          exact .dimension named mismatch
      · next sized =>
          split at rejected
          · next found =>
              cases rejected
              have inside : firstNonFinite record.vector < record.vector.length :=
                lt_of_le_of_ne List.findIdx_le_length found
              apply Blames.finiteness named (not_not.mp sized) _ inside
              · have fails : (!record.vector[firstNonFinite record.vector].isFinite) = true :=
                  @List.findIdx_getElem _ _ record.vector inside
                simpa using fails
              · intro earlier before
                have passes := List.not_of_lt_findIdx before
                simpa using passes
          · cases rejected

theorem rejectBatchRecord_none {position : Nat} {record : RecordInput}
    (accepted : rejectBatchRecord config position record = none) : Acceptable config record := by
  have alone : rejectRecords config position [record] = none := by
    rw [rejectRecords, accepted]
    rfl
  have valid := @rejectRecords_none (Collection.new config 0) [record] position alone record
    List.mem_cons_self
  exact ⟨valid.1, valid.2.1, valid.2.2⟩

theorem rejectRecords_some {records : List RecordInput} {start : Nat} {error : Error}
    (rejected : rejectRecords config start records = some error) :
    ∃ position, ∃ inside : position < records.length,
      (∀ other (before : other < position), Acceptable config records[other]) ∧
        Blames config (start + position) records[position] error := by
  induction records generalizing start with
  | nil => cases rejected
  | cons record rest ih =>
      rw [rejectRecords] at rejected
      cases here : rejectBatchRecord config start record with
      | some found =>
          rw [here] at rejected
          cases rejected
          refine ⟨0, Nat.zero_lt_succ _, ?_, rejectBatchRecord_some here⟩
          intro other before
          exact absurd before (Nat.not_lt_zero other)
      | none =>
          rw [here] at rejected
          obtain ⟨position, inside, earlier, blames⟩ := ih rejected
          refine ⟨position + 1, Nat.succ_lt_succ inside, ?_, ?_⟩
          · intro other before
            cases other with
            | zero => exact rejectBatchRecord_none here
            | succ other => exact earlier other (Nat.lt_of_succ_lt_succ before)
          · rw [show start + (position + 1) = start + 1 + position by omega]
            exact blames

theorem rejectBatch_some {records : List RecordInput} {error : Error}
    (rejected : rejectBatch config records = some error) : BatchFailure config records error := by
  unfold rejectBatch at rejected
  split at rejected
  · next outside =>
      cases rejected
      apply BatchFailure.size
      rcases outside with empty | large
      · left
        rw [empty]
        exact Nat.zero_lt_one
      · right
        exact large
  · obtain ⟨position, inside, earlier, blames⟩ := rejectRecords_some rejected
    rw [Nat.zero_add] at blames
    exact .record position inside earlier blames

theorem allocate_category {allocator : MemoryAllocator} {bytes tag : Nat} {error : Error}
    (refused : allocator.allocate bytes tag = .error error) :
    error.category = .allocationFailure := by
  unfold allocate at refused
  split at refused
  · cases refused
    rfl
  · cases refused

theorem stage_category {bytes tag : Nat} {records : List RecordInput} {taken : List Block}
    {allocator after : MemoryAllocator} {error : Error}
    (failed : stage bytes tag records taken allocator = (.error error, after)) :
    error.category = .allocationFailure := by
  induction records generalizing taken allocator with
  | nil => cases failed
  | cons record rest ih =>
      rw [stage] at failed
      split at failed
      · next refused =>
          cases failed
          exact allocate_category refused
      · exact ih failed

end Rejection

section Batch

variable {D : Type} [FloatOrder D] {host : Host D} {allocator allocator' : MemoryAllocator}
  {collection next : Collection} {records : List RecordInput}

theorem insertBatch_restores {error : Error} (positive : 0 < collection.vectorBytes)
    (sound : allocator.Sound) (pruned : allocator.Pruned)
    (done : insertBatch host allocator collection records = .ok (.error error, allocator', next)) :
    next = collection ∧ Restored allocator allocator' ∧
      BatchFailure collection.config records error := by
  unfold insertBatch at done
  cases valid : rejectBatch collection.config records with
  | some rejected =>
      simp only [valid] at done
      cases done
      exact ⟨rfl, Restored.refl allocator, rejectBatch_some valid⟩
  | none =>
      simp only [valid] at done
      have accepted := rejectBatch_none valid
      have outcome := stage_outcome records [] positive sound pruned (Grows.refl allocator)
        (takenSince_nil allocator) (fun record member => (accepted record member).2.1)
      rw [List.map_nil] at outcome
      cases staged : stage collection.vectorBytes collection.tag records [] allocator with
      | mk result rolledBack =>
          rw [staged] at outcome
          cases result with
          | ok blocks =>
              simp only [staged] at done
              obtain ⟨_, _, result⟩ := bind_ok done
              cases result
          | error reason =>
              simp only [staged] at done
              cases done
              obtain ⟨soundAfter, grows, live⟩ := outcome.2 error rfl
              refine ⟨rfl, restored_of_live sound pruned soundAfter outcome.1 grows live,
                .exhausted ?_ (stage_category staged)⟩
              intro record member
              exact ⟨(accepted record member).1, (accepted record member).2.1,
                (accepted record member).2.2⟩

theorem commit_pruned {id : RecordId} {vec : List F32} {metadata : Option Metadata} {block : Block}
    (pruned : allocator.Pruned)
    (done : commit host allocator collection id vec metadata block = .ok (allocator', next)) :
    allocator'.Pruned := by
  rw [(commit_ok done).2.2.2.2]
  split
  · exact release_pruned pruned _
  · exact pruned

theorem commitAll_pruned (pairs : List (RecordInput × Block)) (pruned : allocator.Pruned)
    (done : commitAll host pairs allocator collection = .ok (allocator', next)) :
    allocator'.Pruned := by
  induction pairs generalizing allocator collection with
  | nil =>
      cases done
      exact pruned
  | cons pair rest ih =>
      obtain ⟨⟨released, committed⟩, step, later⟩ := bind_ok done
      exact ih (commit_pruned pruned step) later

theorem insert_pruned {id : RecordId} {vec : List F32} {metadata : Option Metadata}
    {status : Status} (positive : 0 < collection.vectorBytes) (sound : allocator.Sound)
    (pruned : allocator.Pruned)
    (done : insert host allocator collection id vec metadata = .ok (status, allocator', next)) :
    allocator'.Pruned := by
  unfold insert at done
  split at done
  · cases done
    exact pruned
  · split at done
    · cases done
      exact pruned
    · next granted =>
        obtain ⟨⟨released, committed⟩, step, result⟩ := bind_ok done
        cases result
        apply commit_pruned _ step
        apply storeComponents_pruned
        exact allocate_pruned sound pruned positive collection.vectorBytes_fits granted

theorem insertBatch_pruned {status : Status} (positive : 0 < collection.vectorBytes)
    (sound : allocator.Sound) (pruned : allocator.Pruned)
    (done : insertBatch host allocator collection records = .ok (status, allocator', next)) :
    allocator'.Pruned := by
  unfold insertBatch at done
  cases valid : rejectBatch collection.config records with
  | some rejected =>
      simp only [valid] at done
      cases done
      exact pruned
  | none =>
      simp only [valid] at done
      have accepted := rejectBatch_none valid
      have outcome := (stage_outcome records [] positive sound pruned (Grows.refl allocator)
        (takenSince_nil allocator) (fun record member => (accepted record member).2.1)).1
      rw [List.map_nil] at outcome
      cases staged : stage collection.vectorBytes collection.tag records [] allocator with
      | mk result stored =>
          rw [staged] at outcome
          cases result with
          | error error =>
              simp only [staged] at done
              cases done
              exact outcome
          | ok blocks =>
              simp only [staged] at done
              obtain ⟨⟨released, committed⟩, step, result⟩ := bind_ok done
              cases result
              exact commitAll_pruned _ outcome step

theorem remove_pruned {id : RecordId} {status : Status} (pruned : allocator.Pruned)
    (done : remove allocator collection id = .ok (status, allocator', next)) :
    allocator'.Pruned := by
  unfold remove at done
  split at done
  · cases done
    exact pruned
  · obtain ⟨indexed, _, result⟩ := bind_ok done
    cases result
    exact release_pruned pruned _

end Batch

end Collection

open Collection

namespace World

variable {D : Type} [FloatOrder D] {host : Host D}

structure Kept (world : World) : Prop where
  owned : world.engine.Owned
  configured : world.engine.Configured
  pruned : world.engine.allocator.Pruned

theorem effect_kept {world after : World} {command : Command} (kept : world.Kept)
    (effect : Effect host world command after) : after.Kept := by
  refine ⟨effect_owned kept.owned effect, effect_configured kept.owned kept.configured effect, ?_⟩
  cases effect with
  | idle => exact kept.pruned
  | created checked absent => exact kept.pruned
  | deleted found => exact releaseAll_pruned kept.pruned _
  | operated found operation =>
      have positive := vectorBytes_pos (kept.configured _ _ found).1
      cases operation with
      | insert done => exact insert_pruned positive kept.owned.sound kept.pruned done
      | insertBatch done => exact insertBatch_pruned positive kept.owned.sound kept.pruned done
      | remove done => exact remove_pruned kept.pruned done
      | buildIndex done => exact kept.pruned
      | query done => exact kept.pruned
  | saved => exact kept.pruned
  | refused => exact kept.pruned
  | conflicted => exact releaseAll_pruned kept.pruned _
  | loaded read absent => exact kept.pruned
  | put => exact kept.pruned

theorem new_kept (capacity : UInt64) (garbage : Nat → UInt8) : (new capacity garbage).Kept :=
  ⟨Engine.new_owned capacity garbage, Engine.new_configured capacity garbage,
    new_pruned capacity garbage⟩

theorem run_kept {capacity : UInt64} {garbage : Nat → UInt8} {commands : List Command}
    {statuses : List Status} {world : World}
    (done : (new capacity garbage).run host commands = .ok (statuses, world)) : world.Kept :=
  run_keeps (fun _ _ _ _ kept effect => effect_kept kept effect) (new_kept capacity garbage) done

/-- In every reachable world a batch insert that fails, fails without a trace. -/
theorem insertBatch_atomic {capacity : UInt64} {garbage : Nat → UInt8} {commands : List Command}
    {statuses : List Status} {world : World} {name : Bytes} {collection next : Collection}
    {records : List RecordInput} {error : Error} {allocator : MemoryAllocator}
    (done : (new capacity garbage).run host commands = .ok (statuses, world))
    (found : world.engine.collections.find? name = some collection)
    (failed : collection.insertBatch host world.engine.allocator records =
      .ok (.error error, allocator, next)) :
    next = collection ∧ Restored world.engine.allocator allocator ∧
      BatchFailure collection.config records error := by
  have kept := run_kept done
  have positive := vectorBytes_pos (kept.configured name collection found).1
  exact insertBatch_restores positive kept.owned.sound kept.pruned failed

/-- Two blocks fit; the third record of the batch finds no room. -/
theorem insertBatch_atomic_of_full :
    ∃ statuses world collection error allocator,
      (new 128 (fun _ => 0)).run (ExactLine.host []) [.createCollection [97] 1 0] =
        .ok (statuses, world) ∧
      insertBatch (ExactLine.host []) world.engine.allocator collection
        [⟨[1], [0], none⟩, ⟨[2], [0], none⟩, ⟨[3], [0], none⟩] =
          .ok (.error error, allocator, collection) ∧
      Restored world.engine.allocator allocator := by
  have reaches : ∃ statuses world collection,
      (new 128 (fun _ => 0)).run (ExactLine.host []) [.createCollection [97] 1 0] =
        .ok (statuses, world) ∧
      world.engine.collections.find? [97] = some collection ∧
      (collection.insertBatch (ExactLine.host []) world.engine.allocator
        [⟨[1], [0], none⟩, ⟨[2], [0], none⟩, ⟨[3], [0], none⟩]).toOption.any
          (fun result => !result.1.isOk) = true :=
    exists_of_reached (by decide +kernel)
  obtain ⟨statuses, world, collection, done, found, told⟩ := reaches
  obtain ⟨⟨status, allocator, next⟩, failed, fails⟩ := ok_of_any told
  cases status with
  | ok result => cases fails
  | error error =>
      obtain ⟨same, restored, _⟩ := insertBatch_atomic done found failed
      rw [same] at failed
      exact ⟨statuses, world, collection, error, allocator, done, failed, restored⟩

end World

end VectorVault
