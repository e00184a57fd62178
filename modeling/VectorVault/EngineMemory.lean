import VectorVault.CollectionUpdates
import VectorVault.PersistenceLoad
import VectorVault.EngineSteps
import VectorVault.ExactLine

/-! The memory of all collections together.

Every live block belongs to one registered collection, by its tag, and to one of
its records. What a command does under one tag leaves the others alone, so the
invariant goes from each collection to the engine. -/

namespace VectorVault

open MemoryAllocator Collection PersistenceManager

namespace Engine

/-- Live blocks and registered collections account for each other. -/
structure Owned (engine : Engine) : Prop where
  sound : engine.allocator.Sound
  stored : ∀ name collection, engine.collections.find? name = some collection →
    collection.Stored engine.allocator []
  tags : ∀ name collection, engine.collections.find? name = some collection →
    collection.tag < engine.nextTag
  distinct : ∀ first second one other, engine.collections.find? first = some one →
    engine.collections.find? second = some other → one.tag = other.tag → first = second
  registered : ∀ offset record, engine.allocator.live.find? offset = some record →
    ∃ name collection, engine.collections.find? name = some collection ∧
      collection.tag = record.tag

theorem new_owned (capacity : UInt64) (garbage : Nat → UInt8) : (new capacity garbage).Owned where
  sound := new_sound capacity garbage
  stored _ _ found := by cases found
  tags _ _ found := by cases found
  distinct _ _ _ _ found := by cases found
  registered _ _ held := by cases held

variable {engine : Engine}

theorem Owned.unused (owned : engine.Owned) {tag : Nat} (fresh : engine.nextTag ≤ tag) :
    ∀ offset record, engine.allocator.live.find? offset = some record → record.tag ≠ tag := by
  intro offset record held same
  obtain ⟨name, collection, found, isTag⟩ := owned.registered offset record held
  have below := owned.tags name collection found
  omega

theorem Owned.register (owned : engine.Owned) {name : Bytes} {collection : Collection}
    (absent : engine.collections.find? name = none) (isTag : collection.tag = engine.nextTag)
    (stored : collection.Stored engine.allocator []) :
    Owned { engine with
      collections := engine.collections.emplace name collection
      nextTag := engine.nextTag + 1 } := by
  have table := fun other => by
    have find := OrderedMap.find_insert engine.collections name other collection
    rw [← OrderedMap.emplace_of_absent _ _ _ absent] at find
    exact find
  have apart : ∀ other held, engine.collections.find? other = some held →
      held.tag ≠ collection.tag := by
    intro other held found
    have below := owned.tags other held found
    omega
  refine ⟨owned.sound, ?_, ?_, ?_, ?_⟩
  · intro other held found
    rw [table other] at found
    split at found
    · cases found
      exact stored
    · exact owned.stored other held found
  · intro other held found
    rw [table other] at found
    split at found
    · cases found
      simp only
      omega
    · have below := owned.tags other held found
      simp only
      omega
  · intro first second one other foundOne foundOther same
    rw [table first] at foundOne
    rw [table second] at foundOther
    split at foundOne
    · next isFirst =>
        split at foundOther
        · next isSecond => rw [isFirst, isSecond]
        · cases foundOne
          exact absurd same.symm (apart second other foundOther)
    · split at foundOther
      · cases foundOther
        exact absurd same (apart first one foundOne)
      · exact owned.distinct first second one other foundOne foundOther same
  · intro offset record held
    obtain ⟨other, known, found, isTag⟩ := owned.registered offset record held
    have elsewhere : other ≠ name := by
      intro same
      rw [same, absent] at found
      cases found
    exact ⟨other, known, by rw [table other, if_neg elsewhere]; exact found, isTag⟩

theorem Owned.update (owned : engine.Owned) {name : Bytes} {collection next : Collection}
    {allocator : MemoryAllocator} (found : engine.collections.find? name = some collection)
    (sound : allocator.Sound) (stored : next.Stored allocator [])
    (frame : Frame collection.tag engine.allocator allocator) (same : collection.Same next) :
    Owned { engine with
      allocator := allocator
      collections := engine.collections.insert name next } := by
  have table := fun other => OrderedMap.find_insert engine.collections name other next
  have apart : ∀ other held, other ≠ name → engine.collections.find? other = some held →
      held.tag ≠ collection.tag := by
    intro other held elsewhere there equal
    exact elsewhere (owned.distinct other name held collection there found equal)
  refine ⟨sound, ?_, ?_, ?_, ?_⟩
  · intro other held there
    rw [table other] at there
    by_cases here : other = name
    · rw [if_pos here] at there
      cases there
      exact stored
    · rw [if_neg here] at there
      exact (owned.stored other held there).frame frame (apart other held here there)
  · intro other held there
    rw [table other] at there
    by_cases here : other = name
    · rw [if_pos here] at there
      cases there
      rw [same.tag]
      exact owned.tags name collection found
    · rw [if_neg here] at there
      exact owned.tags other held there
  · intro first second one other foundOne foundOther equal
    rw [table first] at foundOne
    rw [table second] at foundOther
    by_cases isFirst : first = name
    · rw [if_pos isFirst] at foundOne
      cases foundOne
      by_cases isSecond : second = name
      · rw [isFirst, isSecond]
      · rw [if_neg isSecond] at foundOther
        rw [same.tag] at equal
        exact absurd equal.symm (apart second other isSecond foundOther)
    · rw [if_neg isFirst] at foundOne
      by_cases isSecond : second = name
      · rw [if_pos isSecond] at foundOther
        cases foundOther
        rw [same.tag] at equal
        exact absurd equal (apart first one isFirst foundOne)
      · rw [if_neg isSecond] at foundOther
        exact owned.distinct first second one other foundOne foundOther equal
  · intro offset record held
    by_cases own : record.tag = collection.tag
    · exact ⟨name, next, by rw [table name, if_pos rfl], by rw [same.tag, own]⟩
    · obtain ⟨other, known, there, isTag⟩ :=
        owned.registered offset record ((frame.live offset record own).mp held)
      have elsewhere : other ≠ name := by
        intro equal
        rw [equal, found, Option.some.injEq] at there
        rw [there] at own
        exact own isTag.symm
      exact ⟨other, known, by rw [table other, if_neg elsewhere]; exact there, isTag⟩

theorem Owned.reserve (owned : engine.Owned) : Owned { engine with nextTag := engine.nextTag + 1 } :=
  ⟨owned.sound, owned.stored,
    fun name collection found => Nat.lt_succ_of_lt (owned.tags name collection found),
    owned.distinct, owned.registered⟩

theorem Owned.release_unused (owned : engine.Owned) :
    Owned { engine with
      allocator := engine.allocator.releaseAll engine.nextTag
      nextTag := engine.nextTag + 1 } := by
  obtain ⟨sound, frame, kept⟩ := releaseAll_owned owned.sound engine.nextTag
  refine ⟨sound, ?_, owned.reserve.tags, owned.distinct, ?_⟩
  · intro name held found
    apply (owned.stored name held found).frame frame
    exact (owned.tags name held found).ne
  · intro offset record held
    exact owned.registered offset record (kept offset record held).2

theorem Owned.create (owned : engine.Owned) {name : Bytes} (config : CollectionConfig)
    (absent : engine.collections.find? name = none) :
    Owned { engine with
      collections := engine.collections.emplace name (Collection.new config engine.nextTag)
      nextTag := engine.nextTag + 1 } := by
  have unused := owned.unused (Nat.le_refl engine.nextTag)
  apply owned.register absent rfl
  refine ⟨rfl, rfl, ?_, ⟨?_, ?_, List.nodup_nil⟩⟩
  · intro _ _ found
    cases found
  · intro offset
    apply iff_of_false List.not_mem_nil
    intro blocks
    obtain ⟨record, held, isTag⟩ := blocks
    exact unused offset record held isTag
  · intro offset record held isTag
    exact absurd isTag (unused offset record held)

theorem Owned.delete (owned : engine.Owned) {name : Bytes} {collection : Collection}
    (found : engine.collections.find? name = some collection) :
    Owned { engine with
      allocator := engine.allocator.releaseAll collection.tag
      collections := engine.collections.erase name } := by
  obtain ⟨sound, frame, kept⟩ := releaseAll_owned owned.sound collection.tag
  have table := fun other => OrderedMap.find_erase engine.collections name other
  have remaining : ∀ other held, (engine.collections.erase name).find? other = some held →
      other ≠ name ∧ engine.collections.find? other = some held := by
    intro other held there
    rw [table other] at there
    split at there
    · cases there
    · next elsewhere => exact ⟨elsewhere, there⟩
  refine ⟨sound, ?_, ?_, ?_, ?_⟩
  · intro other held there
    obtain ⟨elsewhere, before⟩ := remaining other held there
    apply (owned.stored other held before).frame frame
    intro equal
    exact elsewhere (owned.distinct other name held collection before found equal)
  · intro other held there
    exact owned.tags other held (remaining other held there).2
  · intro first second one other foundOne foundOther
    exact owned.distinct first second one other (remaining first one foundOne).2
      (remaining second other foundOther).2
  · intro offset record held
    obtain ⟨own, before⟩ := kept offset record held
    obtain ⟨other, known, there, isTag⟩ := owned.registered offset record before
    have elsewhere : other ≠ name := by
      intro equal
      rw [equal, found, Option.some.injEq] at there
      rw [there] at own
      exact own isTag.symm
    exact ⟨other, known, by rw [table other, if_neg elsewhere]; exact there, isTag⟩

end Engine

section Operations

variable {D : Type} [FloatOrder D] {host : Host D} {allocator allocator' : MemoryAllocator}
  {collection next : Collection} {view : OrderedMap RecordId RecordView}

theorem Operated.advances (operated : Operated host allocator collection allocator' next)
    (sound : allocator.Sound) (stored : collection.Stored allocator [])
    (shows_ : collection.Shows allocator view) :
    ∃ viewAfter, Advances [] allocator allocator' collection next viewAfter := by
  cases operated with
  | insert done => exact ⟨_, insert_advances sound stored shows_ done⟩
  | insertBatch done => exact ⟨_, insertBatch_advances sound stored shows_ done⟩
  | remove done => exact ⟨_, remove_advances sound stored shows_ done⟩
  | buildIndex done =>
      obtain ⟨same, records, count⟩ := buildIndex_ok done
      exact ⟨view, stored.reindexed sound shows_ same records count⟩
  | query done =>
      rcases queryWith_ok done with unchanged | ⟨_, _, _, _, _, shape⟩
      · rw [unchanged]
        exact ⟨view, stored.advances sound shows_⟩
      · rw [shape]
        exact ⟨view, stored.reindexed sound shows_ ⟨rfl, rfl, rfl⟩ rfl rfl⟩

end Operations

namespace World

variable {D : Type} [FloatOrder D] {host : Host D} {world : World}

theorem effect_owned (owned : world.engine.Owned) {command : Command} {after : World}
    (effect : Effect host world command after) : after.engine.Owned := by
  cases effect with
  | idle => exact owned
  | created checked absent => exact owned.create _ absent
  | deleted found => exact owned.delete found
  | operated found operation =>
      have stored := owned.stored _ _ found
      obtain ⟨view, shows_⟩ := stored.shows owned.sound
      obtain ⟨_, final⟩ := operation.advances owned.sound stored shows_
      exact owned.update found final.sound final.stored final.frame final.same
  | saved => exact owned
  | refused => exact owned.reserve
  | conflicted => exact owned.release_unused
  | loaded read absent =>
      obtain ⟨preamble, records, reader, stages⟩ := load_ok read
      have stored := stages.stored (owned.unused (Nat.le_refl _))
      exact owned.register absent (by rw [stages.result]; rfl) stored
  | put => exact owned

theorem step_owned (owned : world.engine.Owned) {command : Command} {status : Status}
    {after : World} (done : world.step host command = .ok (status, after)) :
    after.engine.Owned :=
  effect_owned owned (step_effect done)

theorem run_owned (owned : world.engine.Owned) {commands : List Command} {statuses : List Status}
    {after : World} (done : world.run host commands = .ok (statuses, after)) :
    after.engine.Owned :=
  run_keeps (fun _ _ _ _ owned effect => effect_owned owned effect) owned done

end World

namespace Engine

def arenaBacked (collection : Collection) : Nat :=
  collection.records.entries.countP (fun entry => entry.2.arenaOffset.isSome)

/-- A record of a registered collection whose vector starts at `offset`. -/
def HeldBy (engine : Engine) (offset : Nat) (holder : Bytes × RecordId) : Prop :=
  ∃ collection slot, engine.collections.find? holder.1 = some collection ∧
    collection.records.find? holder.2 = some slot ∧ slot.arenaOffset = some offset

/-- Live blocks and arena-backed records correspond one to one. -/
structure Attributed (engine : Engine) : Prop where
  distinct : ∀ first second one other, engine.collections.find? first = some one →
    engine.collections.find? second = some other → one.tag = other.tag → first = second
  holder : ∀ offset record, engine.allocator.live.find? offset = some record →
    ∃! holder, engine.HeldBy offset holder
  block : ∀ name collection id slot offset, engine.collections.find? name = some collection →
    collection.records.find? id = some slot → slot.arenaOffset = some offset →
      ∃ record, engine.allocator.live.find? offset = some record ∧ record.tag = collection.tag ∧
        record.requestedBytes = 4 * collection.config.dimensionality.toNat
  stats : ∀ name collection, engine.collections.find? name = some collection →
    engine.allocator.statsOf collection.tag =
      ⟨4 * collection.config.dimensionality.toNat * arenaBacked collection, arenaBacked collection⟩
  released : engine.allocator.ignoredReleases = 0

theorem arenaBacked_eq (collection : Collection) :
    arenaBacked collection = collection.arenaOffsets.length := by
  rw [arenaBacked, arenaOffsets, offsetsOf, List.length_filterMap_eq_countP]

theorem slot_unique {records : OrderedMap RecordId RecordSlot} (distinct : (offsetsOf records).Nodup)
    {first second : RecordId} {one other : RecordSlot} {offset : Nat}
    (foundOne : records.find? first = some one) (foundOther : records.find? second = some other)
    (isOne : one.arenaOffset = some offset) (isOther : other.arenaOffset = some offset) :
    first = second := by
  by_contra apart
  have split := offsetsOf_present foundOne
  rw [isOne] at split
  have nodup := split.nodup_iff.mp distinct
  apply (List.nodup_cons.mp nodup).1
  apply (mem_offsetsOf _ _).mpr
  refine ⟨second, other, ?_, isOther⟩
  rw [OrderedMap.find_erase, if_neg (Ne.symm apart)]
  exact foundOther

theorem Owned.attributed {engine : Engine} (owned : engine.Owned) : engine.Attributed := by
  have bytes : ∀ collection : Collection,
      collection.vectorBytes = 4 * collection.config.dimensionality.toNat :=
    fun collection => Nat.mul_comm _ 4
  have blocks : ∀ name collection id slot offset, engine.collections.find? name = some collection →
      collection.records.find? id = some slot → slot.arenaOffset = some offset →
        ∃ record, engine.allocator.live.find? offset = some record ∧
          record.tag = collection.tag ∧
          record.requestedBytes = 4 * collection.config.dimensionality.toNat := by
    intro name collection id slot offset found held isOffset
    obtain ⟨record, live, isTag, requested⟩ :=
      (owned.stored name collection found).offset_live held isOffset
    exact ⟨record, live, isTag, requested.trans (bytes collection)⟩
  refine ⟨owned.distinct, ?_, blocks, ?_, owned.sound.released⟩
  · intro offset record held
    obtain ⟨name, collection, found, isTag⟩ := owned.registered offset record held
    have holds := (owned.stored name collection found).holds
    rw [List.append_nil] at holds
    have member := (holds.blocks offset).mpr ⟨record, held, isTag.symm⟩
    obtain ⟨id, slot, there, isOffset⟩ := (mem_offsetsOf _ _).mp member
    refine ⟨(name, id), ⟨collection, slot, found, there, isOffset⟩, ?_⟩
    rintro ⟨otherName, otherId⟩ ⟨other, otherSlot, otherFound, otherThere, otherOffset⟩
    obtain ⟨same, live, otherTag, _⟩ :=
      blocks otherName other otherId otherSlot offset otherFound otherThere otherOffset
    rw [held, Option.some.injEq] at live
    have names : otherName = name := by
      apply owned.distinct otherName name other collection otherFound found
      rw [← otherTag, ← live, isTag]
    rw [names, found, Option.some.injEq] at otherFound
    rw [← otherFound] at otherThere
    exact Prod.ext names (slot_unique holds.distinct otherThere there otherOffset isOffset)
  · intro name collection found
    have holds := (owned.stored name collection found).holds
    rw [List.append_nil] at holds
    rw [holds.statsOf owned.sound, arenaBacked_eq, bytes]

end Engine

namespace World

theorem run_attributed {D : Type} [FloatOrder D] {host : Host D} {capacity : UInt64}
    {garbage : Nat → UInt8} {commands : List Command} {statuses : List Status} {world : World}
    (done : (new capacity garbage).run host commands = .ok (statuses, world)) :
    world.engine.Attributed :=
  (run_owned (Engine.new_owned capacity garbage) done).attributed

theorem run_attributed_of_overwrite :
    ∃ statuses world, (new 256 (fun _ => 0)).run (ExactLine.host [])
        [.createCollection [97] 1 0, .insert [97] [1] [0] none, .insert [97] [1] [1] none,
          .loadCollection [98]] = .ok (statuses, world) ∧
      world.engine.Attributed := by
  obtain ⟨⟨statuses, world⟩, done⟩ := ok_of_isOk (show ((new 256 (fun _ => 0)).run
    (ExactLine.host [])
    [.createCollection [97] 1 0, .insert [97] [1] [0] none, .insert [97] [1] [1] none,
      .loadCollection [98]]).isOk = true by decide +kernel)
  exact ⟨statuses, world, done, run_attributed done⟩

end World

end VectorVault
