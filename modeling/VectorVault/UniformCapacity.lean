import VectorVault.AllocatorOrder
import VectorVault.BatchOneByOne
import VectorVault.IndexedHistories
import VectorVault.Library.UniformTiling

/-! Collections whose vectors take the same number of chunks share the arena
without loss.

First fit then never leaves a hole that no vector fits into: the arena takes as many
blocks as its capacity says, whatever was overwritten, removed, deleted or loaded
before. -/

namespace VectorVault

open MemoryAllocator Tiling

namespace MemoryAllocator

variable {allocator allocated : MemoryAllocator} {unit bytes tag : Nat} {block : Block}

theorem footprint_lists (allocator : MemoryAllocator) :
    Lists (allocator.live.entries.map (fun entry => (entry.1, entry.2.roundedBytes)))
      allocator.footprint where
  mem := by
    intro offset length
    rw [List.mem_map, footprint_eq_some]
    constructor
    · intro listed
      rcases listed with ⟨entry, member, same⟩
      cases same
      exact ⟨entry.2, (OrderedMap.find_eq_some_iff _ _ _).mpr member, rfl⟩
    · intro held
      rcases held with ⟨record, found, same⟩
      exact ⟨(offset, record), (OrderedMap.find_eq_some_iff _ _ _).mp found, by rw [← same]⟩
  sorted := by
    rw [List.pairwise_map]
    exact allocator.live.sorted

theorem free_lists (free : OrderedMap Nat Nat) : Lists free.entries free.find? :=
  ⟨fun offset length => (OrderedMap.find_eq_some_iff free offset length).symm, free.sorted⟩

theorem rooms_add_live (tiled : allocator.Tiled) (uniform : Uniform unit allocator.footprint)
    (positive : 0 < unit) :
    rooms unit allocator.freeByOffset + allocator.live.size = allocator.capacityBytes / unit := by
  have counted := tiled.tiling.rooms_add_live tiled.coalesced uniform positive
    (free_lists allocator.freeByOffset) (footprint_lists allocator)
  rw [List.length_map] at counted
  exact counted

theorem new_uniform (unit : Nat) (capacity : UInt64) (garbage : Nat → UInt8) :
    Uniform unit (new capacity garbage).footprint := by
  intro offset length held
  cases held

theorem allocate_uniform (tiled : allocator.Tiled)
    (uniform : Uniform (needed bytes) allocator.footprint)
    (granted : allocator.allocate bytes tag = .ok (block, allocated)) :
    Uniform (needed bytes) allocated.footprint := by
  rcases allocate_ok granted with ⟨offset, span, free, _, _, state⟩
  have gap := tiled.tiling.gap_of_free tiled.coalesced free
  have absent : allocator.live.find? offset = none := by
    have unused := tiled.tiling.free_not_live free
    simpa [footprint] using unused
  intro other length held
  rcases (footprint_eq_some _ _ _).mp held with ⟨record, found, same⟩
  rw [state] at found
  simp only [OrderedMap.emplace_of_absent _ _ _ absent, OrderedMap.find_insert] at found
  by_cases here : other = offset
  · rw [if_pos here, Option.some.injEq] at found
    rw [here, ← same, ← found]
    exact ⟨rfl, gap.aligned uniform⟩
  · rw [if_neg here] at found
    exact uniform other length ((footprint_eq_some _ _ _).mpr ⟨record, found, same⟩)

theorem uniform_of_live {after : MemoryAllocator} (uniform : Uniform unit allocator.footprint)
    (fewer : ∀ offset record, after.live.find? offset = some record →
      allocator.live.find? offset = some record) : Uniform unit after.footprint := by
  intro offset length held
  rcases (footprint_eq_some _ _ _).mp held with ⟨record, found, same⟩
  exact uniform offset length ((footprint_eq_some _ _ _).mpr ⟨record, fewer _ _ found, same⟩)

theorem release_uniform (tiled : allocator.Tiled) (uniform : Uniform unit allocator.footprint)
    (block : Block) : Uniform unit (allocator.release block).footprint := by
  apply uniform_of_live uniform
  intro offset record held
  rw [release_table tiled] at held
  split at held
  · cases held
  · exact held

theorem releaseAll_uniform (sound : allocator.Sound) (uniform : Uniform unit allocator.footprint)
    (tag : Nat) : Uniform unit (allocator.releaseAll tag).footprint := by
  apply uniform_of_live uniform
  intro offset record held
  exact ((releaseAll_owned sound tag).2.2 offset record held).2

end MemoryAllocator

namespace Collection

variable {bytes tag : Nat} {start middle final : MemoryAllocator}

/-- Work with the allocator that asks for blocks of one size and tag only. -/
inductive Uses (bytes tag : Nat) (start : MemoryAllocator) : MemoryAllocator → Prop
  | refl : Uses bytes tag start start
  | allocate {middle after : MemoryAllocator} {block : Block} (earlier : Uses bytes tag start middle)
      (granted : middle.allocate bytes tag = .ok (block, after)) : Uses bytes tag start after
  | store {middle : MemoryAllocator} (earlier : Uses bytes tag start middle) (block : Block)
      (vec : List F32) : Uses bytes tag start (storeComponents middle block vec)
  | release {middle : MemoryAllocator} (earlier : Uses bytes tag start middle) (block : Block) :
      Uses bytes tag start (middle.release block)

theorem Uses.releases (earlier : Uses bytes tag start middle) (blocks : List Block) :
    Uses bytes tag start (blocks.foldl MemoryAllocator.release middle) := by
  induction blocks generalizing middle with
  | nil => exact earlier
  | cons block rest ih => exact ih (earlier.release block)

theorem storeComponents_live (allocator : MemoryAllocator) (block : Block) (vec : List F32) :
    (storeComponents allocator block vec).live = allocator.live := by
  unfold storeComponents
  split
  · rfl
  · rfl

theorem storeComponents_tiled {allocator : MemoryAllocator} (tiled : allocator.Tiled)
    (block : Block) (vec : List F32) : (storeComponents allocator block vec).Tiled := by
  unfold storeComponents
  split
  · exact ⟨tiled.tiling, tiled.coalesced, tiled.freeAligned, tiled.liveAligned,
      tiled.capacityAligned, tiled.capacityBound, tiled.offsets⟩
  · exact tiled

/-- Induction over the uses, one case for each. -/
theorem Uses.uniform (uses : Uses bytes tag start final) (tiled : start.Tiled)
    (uniform : Uniform (needed bytes) start.footprint) :
    final.Tiled ∧ Uniform (needed bytes) final.footprint := by
  induction uses with
  | refl => exact ⟨tiled, uniform⟩
  | allocate _ granted ih =>
      exact ⟨allocate_tiled ih.1 granted, allocate_uniform ih.1 ih.2 granted⟩
  | store _ block vec ih =>
      refine ⟨storeComponents_tiled ih.1 block vec, uniform_of_live ih.2 ?_⟩
      intro offset record held
      rw [storeComponents_live] at held
      exact held
  | release _ block ih => exact ⟨release_tiled ih.1 block, release_uniform ih.1 ih.2 block⟩

section Operations

variable {D : Type} [FloatOrder D] {host : Host D} {allocator allocator' : MemoryAllocator}
  {collection next : Collection} {records : List RecordInput} {status : Status}

theorem stage_uses (records : List RecordInput) {taken : List Block} {outcome : Result (List Block)}
    (earlier : Uses bytes tag start middle)
    (staged : stage bytes tag records taken middle = (outcome, final)) :
    Uses bytes tag start final := by
  induction records generalizing taken middle with
  | nil =>
      cases staged
      exact earlier
  | cons record rest ih =>
      rw [stage] at staged
      split at staged
      · cases staged
        exact earlier.releases taken
      · next granted => exact ih ((earlier.allocate granted).store _ _) staged

theorem commit_uses {id : RecordId} {vec : List F32} {metadata : Option Metadata} {block : Block}
    (earlier : Uses bytes tag start allocator)
    (done : commit host allocator collection id vec metadata block = .ok (allocator', next)) :
    Uses bytes tag start allocator' := by
  rw [(commit_ok done).2.2.2.2]
  split
  · exact earlier.release _
  · exact earlier

theorem commitAll_uses (pairs : List (RecordInput × Block)) (earlier : Uses bytes tag start allocator)
    (done : commitAll host pairs allocator collection = .ok (allocator', next)) :
    Uses bytes tag start allocator' := by
  induction pairs generalizing allocator collection with
  | nil =>
      cases done
      exact earlier
  | cons pair rest ih =>
      rcases bind_ok done with ⟨⟨released, committed⟩, step, later⟩
      exact ih (commit_uses earlier step) later

theorem insert_uses {id : RecordId} {vec : List F32} {metadata : Option Metadata}
    (done : insert host allocator collection id vec metadata = .ok (status, allocator', next)) :
    Uses collection.vectorBytes collection.tag allocator allocator' := by
  unfold insert at done
  split at done
  · cases done
    exact .refl
  · split at done
    · cases done
      exact .refl
    · next granted =>
        rcases bind_ok done with ⟨⟨released, committed⟩, step, result⟩
        cases result
        exact commit_uses ((Uses.refl.allocate granted).store _ _) step

theorem insertBatch_uses
    (done : insertBatch host allocator collection records = .ok (status, allocator', next)) :
    Uses collection.vectorBytes collection.tag allocator allocator' := by
  unfold insertBatch at done
  split at done
  · cases done
    exact .refl
  · split at done
    · next staged =>
        cases done
        exact stage_uses records .refl staged
    · next staged =>
        rcases bind_ok done with ⟨⟨released, committed⟩, step, result⟩
        cases result
        exact commitAll_uses _ (stage_uses records .refl staged) step

theorem remove_uses {id : RecordId}
    (done : remove allocator collection id = .ok (status, allocator', next)) :
    Uses collection.vectorBytes collection.tag allocator allocator' := by
  unfold remove at done
  split at done
  · cases done
    exact .refl
  · rcases bind_ok done with ⟨indexed, _, result⟩
    cases result
    exact Uses.refl.release _

theorem operated_uses (operated : Operated host allocator collection allocator' next) :
    Uses collection.vectorBytes collection.tag allocator allocator' := by
  cases operated with
  | insert done => exact insert_uses done
  | insertBatch done => exact insertBatch_uses done
  | remove done => exact remove_uses done
  | buildIndex done => exact .refl
  | query done => exact .refl

theorem stage_of_rooms (records : List RecordInput) (taken : List Block) (tiled : start.Tiled)
    (enough : records.length ≤ rooms (needed bytes) start.freeByOffset) :
    ∃ blocks stored, stage bytes tag records taken start = (.ok blocks, stored) := by
  induction records generalizing taken start with
  | nil => exact ⟨taken, start, rfl⟩
  | cons record rest ih =>
      rw [List.length_cons] at enough
      rcases @allocate_of_rooms start bytes tag (by omega) with ⟨block, allocated, granted⟩
      have one := allocate_rooms tiled granted
      have left : rest.length ≤
          rooms (needed bytes) (storeComponents allocated block record.vector).freeByOffset := by
        rw [storeComponents_free]
        omega
      rcases ih (taken ++ [block]) (storeComponents_tiled (allocate_tiled tiled granted) _ _) left
        with ⟨blocks, stored, staged⟩
      refine ⟨blocks, stored, ?_⟩
      rw [stage, granted]
      exact staged

/-- The call succeeds where there is room, and else fails for memory. -/
def Decides (status : Status) (fits : Prop) : Prop :=
  status = .ok () ∧ fits ∨ ∃ error, status = .error error ∧ error.category = .allocationFailure ∧ ¬ fits

variable {view : OrderedMap RecordId RecordView}

variable (host) in
theorem insert_decided (indexed : collection.Indexed view) (tiled : allocator.Tiled) {id : RecordId}
    {vec : List F32} (metadata : Option Metadata)
    (valid : rejectInsert collection.config id vec = none) :
    ∃ status after next, insert host allocator collection id vec metadata =
        .ok (status, after, next) ∧
      Decides status (0 < rooms (needed collection.vectorBytes) allocator.freeByOffset) := by
  rcases insert_total host allocator indexed id vec metadata with ⟨status, after, next, done, _⟩
  refine ⟨status, after, next, done, ?_⟩
  unfold insert at done
  rw [valid] at done
  simp only at done
  split at done
  · next error refused =>
      cases done
      refine Or.inr ⟨error, rfl, allocate_category refused, ?_⟩
      intro available
      rcases @allocate_of_rooms allocator collection.vectorBytes collection.tag available with
        ⟨block, allocated, granted⟩
      rw [granted] at refused
      cases refused
  · next granted =>
      rcases bind_ok done with ⟨⟨released, committed⟩, _, result⟩
      cases result
      have one := allocate_rooms tiled granted
      exact Or.inl ⟨rfl, by omega⟩

variable (host) in
theorem insertBatch_decided (indexed : collection.Indexed view) (sound : allocator.Sound)
    (valid : rejectBatch collection.config records = none) :
    ∃ status after next, insertBatch host allocator collection records =
        .ok (status, after, next) ∧
      Decides status
        (records.length ≤ rooms (needed collection.vectorBytes) allocator.freeByOffset) := by
  rcases insertBatch_total host allocator indexed records with ⟨status, after, next, done, _⟩
  refine ⟨status, after, next, done, ?_⟩
  have accepted := rejectBatch_none valid
  unfold insertBatch at done
  rw [valid] at done
  simp only at done
  split at done
  · next error rolledBack staged =>
      cases done
      refine Or.inr ⟨error, rfl, stage_category staged, ?_⟩
      intro enough
      rcases @stage_of_rooms collection.vectorBytes collection.tag allocator records []
        sound.tiled enough with ⟨blocks, stored, other⟩
      rw [other] at staged
      cases staged
  · next staged =>
      rcases bind_ok done with ⟨⟨released, committed⟩, _, result⟩
      cases result
      exact Or.inl ⟨rfl, stage_rooms records sound
        (fun record member => (accepted record member).2.1) staged⟩

end Operations

end Collection

open Collection PersistenceManager

namespace World

variable {D : Type} [FloatOrder D] {host : Host D} {world after : World} {unit : Nat}
  {limits limits' : MemoryAllocator → Collection → Prop}

theorem History.mono (history : History host limits world)
    (weaker : ∀ allocator collection, limits allocator collection → limits' allocator collection) :
    History host limits' world := by
  induction history with
  | start capacity garbage => exact .start capacity garbage
  | step _ own done within ih =>
      exact ih.step own done (fun name collection found => weaker _ _ (within name collection found))
  | copied _ _ path source ih other => exact ih.copied other path source

/-- A snapshot can hold the collection, whose vectors take `unit` bytes each. -/
def Sized (unit : Nat) (allocator : MemoryAllocator) (collection : Collection) : Prop :=
  Storable allocator collection ∧ needed collection.vectorBytes = unit

instance (unit : Nat) (allocator : MemoryAllocator) (collection : Collection) :
    Decidable (Sized unit allocator collection) :=
  inferInstanceAs (Decidable (_ ∧ _))

theorem effect_uniform (owned : world.engine.Owned) (sized : world.engine.Within (Sized unit))
    (uniform : Uniform unit world.engine.allocator.footprint) {command : Command}
    (effect : Effect host world command after) : Uniform unit after.engine.allocator.footprint := by
  cases effect with
  | idle => exact uniform
  | created checked absent => exact uniform
  | deleted found => exact releaseAll_uniform owned.sound uniform _
  | operated found operation =>
      have uses := operated_uses operation
      rw [← (sized _ _ found).2] at uniform ⊢
      exact (uses.uniform owned.sound.tiled uniform).2
  | saved => exact uniform
  | refused => exact uniform
  | conflicted => exact releaseAll_uniform owned.sound uniform _
  | loaded read absent => exact uniform
  | put => exact uniform

theorem History.uniform (history : History host (Sized unit) world) :
    Uniform unit world.engine.allocator.footprint := by
  induction history with
  | start capacity garbage => exact new_uniform unit capacity garbage
  | step earlier own done within ih =>
      have storable := earlier.mono (fun _ _ sized => sized.1)
      exact effect_uniform storable.indexed.1 earlier.within ih (step_effect done)
  | copied earlier _ path source ih _ => exact ih

/-- Where all vectors take the same number of bytes, the statistics tell exactly what
still fits: a valid insert fails for memory if and only if every slot of the arena is
live, and a valid batch if and only if it has more records than slots are left. -/
theorem capacity_exact (history : History host (Sized unit) world) {name : Bytes}
    {collection : Collection} (found : world.engine.collections.find? name = some collection) :
    (∀ id vec metadata, rejectInsert collection.config id vec = none →
      ∃ status allocator next, insert host world.engine.allocator collection id vec metadata =
          .ok (status, allocator, next) ∧
        Decides status (world.engine.allocator.stats.liveBlockCount + 1 ≤
          world.engine.allocator.capacityBytes / unit)) ∧
    ∀ records, rejectBatch collection.config records = none →
      ∃ status allocator next, insertBatch host world.engine.allocator collection records =
          .ok (status, allocator, next) ∧
        Decides status (world.engine.allocator.stats.liveBlockCount + records.length ≤
          world.engine.allocator.capacityBytes / unit) := by
  rcases (history.mono (fun _ _ sized => sized.1)).indexed with ⟨owned, _, each, _⟩
  rcases each name collection found with ⟨view, _, indexed⟩
  have size := (history.within name collection found).2
  have positive : 0 < unit := size ▸ needed_pos collection.vectorBytes
  have rooms := MemoryAllocator.rooms_add_live owned.sound.tiled history.uniform positive
  have live : world.engine.allocator.stats.liveBlockCount = world.engine.allocator.live.size :=
    owned.sound.accounted.blocks
  rw [← live] at rooms
  rw [← rooms, ← size]
  constructor
  · intro id vec metadata valid
    rcases insert_decided host indexed owned.sound.tiled metadata valid with
      ⟨status, allocator, next, done, decided⟩
    refine ⟨status, allocator, next, done, ?_⟩
    rw [Nat.add_comm, Nat.add_le_add_iff_right]
    exact decided
  · intro records valid
    rcases insertBatch_decided host indexed owned.sound valid with
      ⟨status, allocator, next, done, decided⟩
    refine ⟨status, allocator, next, done, ?_⟩
    rw [Nat.add_comm, Nat.add_le_add_iff_right]
    exact decided

/-- Three slots, one of them given back from between two others. -/
theorem capacity_exact_of_hole :
    ∃ world collection, History (ExactLine.host []) (Sized 64) world ∧
      world.engine.collections.find? [97] = some collection ∧
      (∃ status allocator next, insertBatch (ExactLine.host []) world.engine.allocator collection
        [⟨[1], [0], none⟩, ⟨[2], [0], none⟩] = .ok (status, allocator, next) ∧ status ≠ .ok ()) ∧
      ∃ allocator next, insert (ExactLine.host []) world.engine.allocator collection [1] [0] none =
        .ok (.ok (), allocator, next) := by
  have told : ((new 200 (fun _ => 0)).follow (ExactLine.host []) (Sized 64)
      [.createCollection [97] 1 0, .createCollection [98] 16 0, .insert [97] [1] [0] none,
        .insert [97] [2] [0] none, .insert [98] [1] (List.replicate 16 0) none,
        .remove [97] [2]]).any (fun after =>
      (after.engine.collections.find? [97]).any (fun collection =>
        decide (rejectInsert collection.config [1] [0] = none ∧
          rejectBatch collection.config [⟨[1], [0], none⟩, ⟨[2], [0], none⟩] = none ∧
          after.engine.allocator.stats.liveBlockCount = 2 ∧
          after.engine.allocator.capacityBytes / 64 = 3))) = true := by
    decide +kernel
  rcases exists_of_followed told with ⟨world, collection, history, found, facts⟩
  rcases of_decide_eq_true facts with ⟨valid, validBatch, live, slots⟩
  have law := capacity_exact history found
  rcases law.1 [1] [0] none valid with ⟨status, allocator, next, done, decided⟩
  rcases law.2 _ validBatch with ⟨status', allocator', next', done', decided'⟩
  rw [live, slots] at decided decided'
  have fits : status = .ok () := by
    rcases decided with granted | ⟨_, _, _, refused⟩
    · exact granted.1
    · exact absurd (Nat.le_refl 3) refused
  have fails : status' ≠ .ok () := by
    rcases decided' with ⟨_, granted⟩ | ⟨error, isError, _⟩
    · exact absurd granted (by decide)
    · rw [isError]
      exact fun same => by cases same
  rw [fits] at done
  exact ⟨world, collection, history, found, ⟨status', allocator', next', done', fails⟩,
    allocator, next, done⟩

end World

end VectorVault
