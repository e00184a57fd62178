import VectorVault.BatchRollback
import VectorVault.CollectionIndex
import VectorVault.ExactLine

/-! The phases of a call that writes to a collection.

The call has the collection to itself throughout, but the allocator only for one
operation at a time: work on other collections comes between an allocation, the
copy into it, and whatever follows. -/

namespace VectorVault.Concurrent

open Snapshot MemoryAllocator Collection

inductive Update where
  | insert (id : RecordId) (vec : List F32) (metadata : Option Metadata)
  | insertBatch (records : List RecordInput)
  | remove (id : RecordId)
  | buildIndex (type : IndexType) (params : IndexParams)

namespace Update

def records : Update → List RecordInput
  | .insert id vec metadata => [⟨id, vec, metadata⟩]
  | .insertBatch records => records
  | .remove _ => []
  | .buildIndex _ _ => []

def Allocates : Update → Prop
  | .insert _ _ _ => True
  | .insertBatch _ => True
  | .remove _ => False
  | .buildIndex _ _ => False

def reject (config : CollectionConfig) : Update → Option Error
  | .insert id vec _ => rejectInsert config id vec
  | .insertBatch records => rejectBatch config records
  | .remove _ => none
  | .buildIndex _ _ => none

end Update

/-- Where a call that holds the exclusive lock stands. -/
inductive Phase where
  | started
  | staging (staged : List Block) (pending : List RecordInput)
  | copying (staged : List Block) (block : Block) (record : RecordInput)
      (pending : List RecordInput)
  | givingBack (blocks : List Block) (error : Error)
  | committing (pairs : List (RecordInput × Block))
  | answered (status : Status)

def Phase.blocks : Phase → List Block
  | .started => []
  | .staging staged _ => staged
  | .copying staged block _ _ => block :: staged
  | .givingBack blocks _ => blocks
  | .committing pairs => pairs.map Prod.snd
  | .answered _ => []

section Advance

variable {D : Type} [FloatOrder D] (host : Host D)

/-- What a call does between two points at which others may use the allocator. -/
def advance (allocator : MemoryAllocator) (collection : Collection) (update : Update) :
    Phase → Run (MemoryAllocator × Collection × Phase)
  | .started =>
      match update with
      | .insert _ _ _ => return (allocator, collection, .staging [] update.records)
      | .insertBatch _ => return (allocator, collection, .staging [] update.records)
      | .remove id => do
          let (status, released, after) ← collection.remove allocator id
          return (released, after, .answered status)
      | .buildIndex type params => do
          let (status, after) ← collection.buildIndex host allocator type params
          return (allocator, after, .answered status)
  | .staging staged [] => return (allocator, collection, .committing (update.records.zip staged))
  | .staging staged (record :: pending) =>
      match allocator.allocate collection.vectorBytes collection.tag with
      | .error error => return (allocator, collection, .givingBack staged error)
      | .ok (block, allocated) =>
          return (allocated, collection, .copying staged block record pending)
  | .copying staged block record pending =>
      return (storeComponents allocator block record.vector, collection,
        .staging (staged ++ [block]) pending)
  | .givingBack [] error => return (allocator, collection, .answered (.error error))
  | .givingBack (block :: rest) error =>
      return (allocator.release block, collection, .givingBack rest error)
  | .committing [] => return (allocator, collection, .answered (.ok ()))
  | .committing ((record, block) :: rest) => do
      let (released, committed) ← commit host allocator collection record.id record.vector
        record.metadata block
      return (released, committed, .committing rest)
  | .answered status => return (allocator, collection, .answered status)

/-- The phases one after the other, with no other call in between. -/
def complete (update : Update) : Nat → MemoryAllocator → Collection → Phase →
    Run (Option (Status × MemoryAllocator × Collection))
  | _, allocator, collection, .answered status => return some (status, allocator, collection)
  | 0, _, _, _ => return none
  | fuel + 1, allocator, collection, phase => do
      let (allocator', next, later) ← advance host allocator collection update phase
      complete update fuel allocator' next later

def Phase.work (update : Update) : Phase → Nat
  | .started => 4 * update.records.length + 3
  | .staging staged pending => update.records.length + staged.length + 3 * pending.length + 2
  | .copying staged _ _ pending => update.records.length + staged.length + 3 * pending.length + 4
  | .givingBack blocks _ => blocks.length + 1
  | .committing pairs => pairs.length + 1
  | .answered _ => 0

end Advance

/-- What the callers know of a collection. -/
structure Entry where
  config : CollectionConfig
  indexType : IndexType
  view : OrderedMap RecordId RecordView

namespace Entry

/-- A collection with nothing but the entry's configuration and size. -/
def outline (entry : Entry) : Collection :=
  { Collection.new entry.config 0 with recordCount := entry.view.size }

def reject (entry : Entry) : Update → Option Error
  | .insert id vec _ => rejectInsert entry.config id vec
  | .insertBatch records => rejectBatch entry.config records
  | .remove id => if entry.view.contains id then none else some (noSuchRecord id)
  | .buildIndex type params => rejectBuild entry.outline type params

def apply (entry : Entry) : Update → Entry
  | .insert id vec metadata => { entry with view := entry.view.insert id ⟨vec, metadata⟩ }
  | .insertBatch records => { entry with view := insertedAll entry.view records }
  | .remove id => { entry with view := entry.view.erase id }
  | .buildIndex type _ => { entry with indexType := type }

/-- An update all at once: it is rejected, there is no memory for it, or it is made. -/
inductive Updates (entry : Entry) (update : Update) : Status → Entry → Prop
  | rejected {error : Error} (why : entry.reject update = some error) :
      Updates entry update (.error error) entry
  | exhausted {error : Error} (valid : entry.reject update = none) (allocates : update.Allocates)
      (category : error.category = .allocationFailure) : Updates entry update (.error error) entry
  | made (valid : entry.reject update = none) : Updates entry update (.ok ()) (entry.apply update)

theorem Updates.config {entry next : Entry} {update : Update} {status : Status}
    (updates : entry.Updates update status next) : next.config = entry.config := by
  cases updates with
  | rejected => rfl
  | exhausted => rfl
  | made => cases update <;> rfl

end Entry

/-- A collection in the middle of a call: it shows `view`, its blocks are those of
its records and the `loose` ones, and the blocks in `pairs` hold their records'
vectors. -/
structure Halfway (allocator : MemoryAllocator) (collection : Collection) (entry : Entry)
    (view : OrderedMap RecordId RecordView) (pairs : List (RecordInput × Nat))
    (loose : List Nat) : Prop where
  config : collection.config = entry.config
  indexType : collection.indexType = entry.indexType
  stored : collection.Stored allocator loose
  shows : collection.Shows allocator view
  indexed : collection.Indexed view
  staged : Staged allocator collection pairs
  held : ∀ pair ∈ pairs, pair.2 ∈ loose

abbrev Settled (allocator : MemoryAllocator) (collection : Collection) (entry : Entry) : Prop :=
  Halfway allocator collection entry entry.view [] []

def blocksOf (collection : Collection) (offsets : List Nat) : List Block :=
  offsets.map (arenaBlock collection.vectorBytes)

/-- What a collection is like while an update stands at a phase. Before the
update's point its callers know it by `entry`. -/
def Underway (allocator : MemoryAllocator) (collection : Collection) (entry : Entry)
    (update : Update) (phase : Phase) : Prop :=
  update.reject entry.config = none ∧
    match phase with
    | .started => Settled allocator collection entry
    | .staging staged pending => update.Allocates ∧ ∃ pairs : List (RecordInput × Nat),
        update.records = pairs.map Prod.fst ++ pending ∧
        staged = blocksOf collection (pairs.map Prod.snd) ∧
        Halfway allocator collection entry entry.view pairs (pairs.map Prod.snd)
    | .copying staged block record pending => update.Allocates ∧
        ∃ (pairs : List (RecordInput × Nat)) (offset : Nat),
          update.records = pairs.map Prod.fst ++ record :: pending ∧
          staged = blocksOf collection (pairs.map Prod.snd) ∧
          block = arenaBlock collection.vectorBytes offset ∧
          Halfway allocator collection entry entry.view pairs (offset :: pairs.map Prod.snd)
    | .givingBack blocks error => update.Allocates ∧ error.category = .allocationFailure ∧
        ∃ loose : List Nat, blocks = blocksOf collection loose ∧
          Halfway allocator collection entry entry.view [] loose
    | .committing pairs => update.Allocates ∧
        ∃ (done : List RecordInput) (rest : List (RecordInput × Nat)),
          update.records = done ++ rest.map Prod.fst ∧
          pairs = rest.map (fun pair => (pair.1, arenaBlock collection.vectorBytes pair.2)) ∧
          Halfway allocator collection entry (insertedAll entry.view done) rest
            (rest.map Prod.snd)
    | .answered _ => False

section Frames

variable {allocator allocator' : MemoryAllocator} {collection next : Collection} {entry : Entry}
  {view : OrderedMap RecordId RecordView} {pairs : List (RecordInput × Nat)} {loose : List Nat}
  {update : Update} {phase : Phase} {tag : Nat}

theorem loose_frame (stored : collection.Stored allocator loose)
    (frame : Frame tag allocator allocator') (other : collection.tag ≠ tag) {offset : Nat}
    (member : offset ∈ loose) (metadata : Option Metadata) :
    collection.components allocator' ⟨arenaBlock collection.vectorBytes offset, metadata⟩ =
      collection.components allocator ⟨arenaBlock collection.vectorBytes offset, metadata⟩ := by
  apply components_kept frame.capacity
  intro place isPlace index within
  rcases stored.holds.live (List.mem_append_right _ member) with ⟨record, live, isTag, requested⟩
  cases isPlace
  rw [← requested] at within
  exact frame.bytes offset record live (by rw [isTag]; exact other) index within

theorem Halfway.frame (halfway : Halfway allocator collection entry view pairs loose)
    (frame : Frame tag allocator allocator') (other : collection.tag ≠ tag) :
    Halfway allocator' collection entry view pairs loose where
  config := halfway.config
  indexType := halfway.indexType
  stored := halfway.stored.frame frame other
  shows := halfway.shows.kept (Same.refl collection) rfl
    (fun _ _ found => halfway.stored.kept_frame frame other found)
  indexed := halfway.indexed
  staged := by
    intro pair member
    rw [loose_frame halfway.stored frame other (halfway.held pair member)]
    exact halfway.staged pair member
  held := halfway.held

theorem Underway.frame (underway : Underway allocator collection entry update phase)
    (frame : Frame tag allocator allocator') (other : collection.tag ≠ tag) :
    Underway allocator' collection entry update phase := by
  rcases underway with ⟨valid, stands⟩
  refine ⟨valid, ?_⟩
  cases phase with
  | started => exact stands.frame frame other
  | staging staged pending =>
      rcases stands with ⟨allocates, pairs, records, blocks, halfway⟩
      exact ⟨allocates, pairs, records, blocks, halfway.frame frame other⟩
  | copying staged block record pending =>
      rcases stands with ⟨allocates, pairs, offset, records, blocks, isBlock, halfway⟩
      exact ⟨allocates, pairs, offset, records, blocks, isBlock, halfway.frame frame other⟩
  | givingBack blocks error =>
      rcases stands with ⟨allocates, category, loose, isLoose, halfway⟩
      exact ⟨allocates, category, loose, isLoose, halfway.frame frame other⟩
  | committing pairs =>
      rcases stands with ⟨allocates, done, rest, records, isPairs, halfway⟩
      exact ⟨allocates, done, rest, records, isPairs, halfway.frame frame other⟩
  | answered status => exact stands

theorem Underway.stored (underway : Underway allocator collection entry update phase) :
    ∃ loose, phase.blocks = blocksOf collection loose ∧ collection.Stored allocator loose := by
  rcases underway with ⟨_, stands⟩
  cases phase with
  | started => exact ⟨[], rfl, stands.stored⟩
  | staging staged pending =>
      rcases stands with ⟨_, pairs, _, blocks, halfway⟩
      exact ⟨_, blocks, halfway.stored⟩
  | copying staged block record pending =>
      rcases stands with ⟨_, pairs, offset, _, blocks, isBlock, halfway⟩
      refine ⟨_, ?_, halfway.stored⟩
      rw [Phase.blocks, blocks, isBlock]
      rfl
  | givingBack blocks error =>
      rcases stands with ⟨_, _, loose, isLoose, halfway⟩
      exact ⟨loose, isLoose, halfway.stored⟩
  | committing pairs =>
      rcases stands with ⟨_, _, rest, _, isPairs, halfway⟩
      refine ⟨_, ?_, halfway.stored⟩
      rw [Phase.blocks, isPairs, blocksOf, List.map_map, List.map_map]
      rfl
  | answered status => cases stands

theorem Underway.config (underway : Underway allocator collection entry update phase) :
    collection.config = entry.config := by
  rcases underway with ⟨_, stands⟩
  cases phase with
  | started => exact stands.config
  | staging staged pending =>
      rcases stands with ⟨_, _, _, _, halfway⟩
      exact halfway.config
  | copying staged block record pending =>
      rcases stands with ⟨_, _, _, _, _, _, halfway⟩
      exact halfway.config
  | givingBack blocks error =>
      rcases stands with ⟨_, _, _, _, halfway⟩
      exact halfway.config
  | committing pairs =>
      rcases stands with ⟨_, _, _, _, _, halfway⟩
      exact halfway.config
  | answered status => cases stands

end Frames

section Memory

variable {allocator allocator' : MemoryAllocator} {collection : Collection} {entry : Entry}
  {view : OrderedMap RecordId RecordView} {pairs : List (RecordInput × Nat)} {loose : List Nat}

theorem store_read (allocator : MemoryAllocator) (offset length : Nat) :
    allocator.store offset (allocator.read offset length) = allocator := by
  have same : (allocator.store offset (allocator.read offset length)).arena = allocator.arena := by
    funext address
    simp only [store]
    split
    · next after =>
        rw [List.getD_eq_getElem?_getD]
        by_cases within : address - offset < length
        · have inside : offset + (address - offset) = address := by omega
          simp [MemoryAllocator.read, within, inside]
        · simp [MemoryAllocator.read, within]
    · rfl
  calc allocator.store offset (allocator.read offset length)
      = { allocator with
          arena := (allocator.store offset (allocator.read offset length)).arena } := rfl
    _ = allocator := by rw [same]

theorem allocate_taken {block : Block} {allocated : MemoryAllocator} (sound : allocator.Sound)
    (granted : allocator.allocate collection.vectorBytes collection.tag =
      .ok (block, allocated)) :
    ∃ offset, block = arenaBlock collection.vectorBytes offset ∧
      Placed allocator allocated collection.tag offset
        (allocator.read offset collection.vectorBytes) := by
  rcases allocate_live sound.tiled granted with ⟨offset, isBlock, _, _, arena, _⟩
  have length : (allocator.read offset collection.vectorBytes).length = collection.vectorBytes := by
    rw [MemoryAllocator.read, List.length_map, List.length_range]
  have fits := collection.vectorBytes_fits
  rw [← length] at fits
  have same : allocator.allocate (allocator.read offset collection.vectorBytes).length
      collection.tag = .ok (block, allocated) := by
    rw [length]
    exact granted
  rcases allocate_placed sound fits same with ⟨other, isOther, placed⟩
  have here : other = offset := by
    rw [isBlock] at isOther
    exact (Pointer.arena.inj (congrArg Block.data isOther)).symm
  have content : allocator.read offset collection.vectorBytes =
      allocated.read offset collection.vectorBytes := by
    rw [MemoryAllocator.read, MemoryAllocator.read, arena]
  rw [here, content, store_read, ← content] at placed
  exact ⟨offset, isBlock, placed⟩

theorem store_owned {offset : Nat} {record : AllocRecord} {content : Bytes}
    (sound : allocator.Sound) (held : allocator.live.find? offset = some record)
    (fits : content.length ≤ record.requestedBytes) :
    (allocator.store offset content).Sound ∧
      (∀ other kept, allocator.live.find? other = some kept → other ≠ offset →
        ∀ index < kept.requestedBytes,
          (allocator.store offset content).arena (other + index) = allocator.arena (other + index)) ∧
      (allocator.store offset content).read offset content.length = content := by
  rcases sound with ⟨tiled, accounted, released⟩
  have spanned : ∀ {other : Nat} {kept : AllocRecord}, allocator.live.find? other = some kept →
      allocator.footprint other = some kept.roundedBytes := by
    intro other kept there
    exact (footprint_eq_some _ _ _).mpr ⟨kept, there, rfl⟩
  refine ⟨⟨⟨tiled.tiling, tiled.coalesced, tiled.freeAligned, tiled.liveAligned,
    tiled.capacityAligned, tiled.capacityBound, tiled.offsets⟩, ⟨accounted.requested,
    accounted.total, accounted.blocks, accounted.tagBytes, accounted.tagBlocks⟩, released⟩, ?_, ?_⟩
  · intro other kept there apart index within
    have requested := accounted.requested other kept there
    have own := accounted.requested offset record held
    have outside : ¬ (offset ≤ other + index ∧ other + index < offset + content.length) := by
      intro overlap
      apply apart
      apply tiled.tiling.live_unique (spanned there) (spanned held) (Nat.le_add_right other index)
        _ overlap.1 _
      · omega
      · omega
    simp only [store]
    by_cases after : offset ≤ other + index
    · rw [if_pos after, List.getD_eq_getElem?_getD, List.getElem?_eq_none (by omega),
        Option.getD_none]
    · rw [if_neg after]
  · apply List.ext_getElem
    · rw [MemoryAllocator.read, List.length_map, List.length_range]
    · intro index _ within
      simp only [MemoryAllocator.read, List.getElem_map, List.getElem_range, store,
        Nat.le_add_right, if_true, Nat.add_sub_cancel_left, List.getD_eq_getElem?_getD,
        List.getElem?_eq_getElem within, Option.getD_some]

end Memory

section Steps

variable {D : Type} [FloatOrder D] {host : Host D} {allocator allocator' : MemoryAllocator}
  {collection next : Collection} {entry : Entry} {view : OrderedMap RecordId RecordView}
  {pairs : List (RecordInput × Nat)} {loose : List Nat} {update : Update} {offset : Nat}

/-- What a step of a call does to everything outside its collection. -/
structure Confined (allocator allocator' : MemoryAllocator) (collection next : Collection) :
    Prop where
  sound : allocator'.Sound
  frame : Frame collection.tag allocator allocator'
  same : collection.Same next

theorem Confined.refl (sound : allocator.Sound) (collection : Collection) :
    Confined allocator allocator collection collection :=
  ⟨sound, Frame.refl collection.tag allocator, Same.refl collection⟩

theorem Halfway.perm (halfway : Halfway allocator collection entry view pairs loose)
    {other : List Nat} (permuted : loose.Perm other) :
    Halfway allocator collection entry view pairs other where
  config := halfway.config
  indexType := halfway.indexType
  stored := ⟨halfway.stored.counted, halfway.stored.named, halfway.stored.backed,
    halfway.stored.holds.perm (permuted.append_left _)⟩
  shows := halfway.shows
  indexed := halfway.indexed
  staged := halfway.staged
  held pair member := permuted.mem_iff.mp (halfway.held pair member)

theorem Halfway.allocate {block : Block} (sound : allocator.Sound)
    (halfway : Halfway allocator collection entry view pairs loose)
    (granted : allocator.allocate collection.vectorBytes collection.tag =
      .ok (block, allocator')) :
    Confined allocator allocator' collection collection ∧
      ∃ offset, block = arenaBlock collection.vectorBytes offset ∧
        Halfway allocator' collection entry view pairs (offset :: loose) := by
  rcases allocate_taken sound granted with ⟨offset, isBlock, placed⟩
  have bytes : (allocator.read offset collection.vectorBytes).length = collection.vectorBytes := by
    rw [MemoryAllocator.read, List.length_map, List.length_range]
  have holds := halfway.stored.holds
  rw [← bytes] at holds
  have grown := placed.holds holds
  rw [bytes] at grown
  refine ⟨⟨placed.sound, placed.frame, Same.refl collection⟩, offset, isBlock, ?_⟩
  exact {
    config := halfway.config
    indexType := halfway.indexType
    stored := ⟨halfway.stored.counted, halfway.stored.named, halfway.stored.backed,
      grown.perm List.perm_middle.symm⟩
    shows := halfway.shows.kept (Same.refl collection) rfl
      (fun _ _ found => halfway.stored.kept_grows placed.grows found)
    indexed := halfway.indexed
    staged := fun pair member =>
      (halfway.stored.staged_grows placed.grows (halfway.held pair member) _).trans
        (halfway.staged pair member)
    held := fun pair member => List.mem_cons_of_mem offset (halfway.held pair member) }

theorem Halfway.copy {record : RecordInput} (sound : allocator.Sound)
    (halfway : Halfway allocator collection entry view pairs (offset :: pairs.map Prod.snd))
    (sized : record.vector.length = collection.config.dimensionality.toNat) :
    Confined allocator (storeComponents allocator (arenaBlock collection.vectorBytes offset)
        record.vector) collection collection ∧
      Halfway (storeComponents allocator (arenaBlock collection.vectorBytes offset) record.vector)
        collection entry view (pairs ++ [(record, offset)])
        ((pairs ++ [(record, offset)]).map Prod.snd) := by
  have isStore : storeComponents allocator (arenaBlock collection.vectorBytes offset)
      record.vector = allocator.store offset (putVector record.vector) := rfl
  have bytes : (putVector record.vector).length = collection.vectorBytes := by
    rw [length_putVector, sized, vectorBytes]
  have stored := halfway.stored
  rcases stored.holds.live (List.mem_append_right _ List.mem_cons_self) with
    ⟨block, live, isTag, requested⟩
  have fits : (putVector record.vector).length ≤ block.requestedBytes := by
    rw [bytes, requested]
  rcases store_owned sound live fits with ⟨soundAfter, elsewhere, content⟩
  have apart : offset ∉ collection.arenaOffsets ++ pairs.map Prod.snd :=
    (List.nodup_cons.mp (List.perm_middle.nodup_iff.mp stored.holds.distinct)).1
  have kept : ∀ slot : RecordSlot, (∀ place, slot.arenaOffset = some place →
        place ∈ collection.arenaOffsets ++ pairs.map Prod.snd) →
      collection.components (allocator.store offset (putVector record.vector)) slot =
        collection.components allocator slot := by
    intro slot inside
    apply components_kept
    · rfl
    intro place isPlace index within
    have member := inside place isPlace
    have owned : place ∈ collection.arenaOffsets ++ offset :: pairs.map Prod.snd :=
      List.perm_middle.mem_iff.mpr (List.mem_cons_of_mem offset member)
    rcases stored.holds.live owned with ⟨held, there, _, size⟩
    rw [← size] at within
    apply elsewhere place held there _ index within
    intro equal
    rw [equal] at member
    exact apart member
  have inside : offset + collection.vectorBytes ≤ allocator.capacityBytes := by
    have below := sound.inside live
    rw [requested] at below
    exact below
  rw [isStore]
  refine ⟨⟨soundAfter, ⟨rfl, fun _ _ _ => Iff.rfl, ?_⟩, Same.refl collection⟩, ?_⟩
  · intro place held there other index within
    apply elsewhere place held there _ index within
    intro equal
    rw [equal, live, Option.some.injEq] at there
    rw [← there] at other
    exact other isTag
  · have isLoose : (pairs ++ [(record, offset)]).map Prod.snd = pairs.map Prod.snd ++ [offset] := by
      rw [List.map_append]
      rfl
    rw [isLoose]
    exact {
      config := halfway.config
      indexType := halfway.indexType
      stored := ⟨stored.counted, stored.named, stored.backed,
        (show (allocator.store offset (putVector record.vector)).Holds collection.tag
            collection.vectorBytes (collection.arenaOffsets ++ offset :: pairs.map Prod.snd) from
          ⟨stored.holds.blocks, stored.holds.requested, stored.holds.distinct⟩).perm
            ((List.perm_append_singleton offset _).symm.append_left _)⟩
      shows := by
        apply halfway.shows.kept (Same.refl collection) rfl
        intro id slot found
        apply kept slot
        intro place isPlace
        exact List.mem_append_left _ ((mem_offsetsOf _ _).mpr ⟨id, slot, found, isPlace⟩)
      indexed := halfway.indexed
      staged := by
        intro pair member
        rcases List.mem_append.mp member with old | new
        · rw [kept _ (fun place isPlace => ?_)]
          · exact halfway.staged pair old
          · cases isPlace
            exact List.mem_append_right _ (List.mem_map_of_mem old)
        · rw [List.mem_singleton.mp new]
          simp only [components, readBlock, arenaBlock, bind, Except.bind]
          rw [if_pos (show offset + collection.vectorBytes ≤
            (allocator.store offset (putVector record.vector)).capacityBytes from inside), ← bytes,
            content]
          exact congrArg Except.ok (getVector_putVector record.vector)
      held := by
        intro pair member
        rw [← isLoose]
        exact List.mem_map_of_mem member }

theorem Halfway.giveBack {rest : List Nat} (sound : allocator.Sound)
    (halfway : Halfway allocator collection entry view [] (offset :: rest)) :
    Confined allocator (allocator.release (arenaBlock collection.vectorBytes offset)) collection
        collection ∧
      Halfway (allocator.release (arenaBlock collection.vectorBytes offset)) collection entry view
        [] rest := by
  rcases release_owned sound (halfway.stored.holds.perm List.perm_middle) with
    ⟨soundAfter, holds, frame, arena⟩
  refine ⟨⟨soundAfter, frame, Same.refl collection⟩, ?_⟩
  exact {
    config := halfway.config
    indexType := halfway.indexType
    stored := ⟨halfway.stored.counted, halfway.stored.named, halfway.stored.backed, holds⟩
    shows := halfway.shows.kept (Same.refl collection) rfl
      (fun _ slot _ => components_unwritten collection frame.capacity arena slot)
    indexed := halfway.indexed
    staged := fun _ member => by cases member
    held := fun _ member => by cases member }

variable (host) in
theorem Halfway.commit {record : RecordInput} {rest : List (RecordInput × Nat)}
    (sound : allocator.Sound)
    (halfway : Halfway allocator collection entry view ((record, offset) :: rest)
      (offset :: rest.map Prod.snd))
    (named : record.id ≠ [])
    (sized : record.vector.length = collection.config.dimensionality.toNat) :
    ∃ allocator' next, commit host allocator collection record.id record.vector record.metadata
        (arenaBlock collection.vectorBytes offset) = .ok (allocator', next) ∧
      Confined allocator allocator' collection next ∧
      Halfway allocator' next entry
        (view.insert record.id ⟨record.vector, record.metadata⟩) rest (rest.map Prod.snd) := by
  rcases commit_total host allocator halfway.indexed named sized record.metadata
    (arenaBlock collection.vectorBytes offset) with ⟨after, next, committed, indexed⟩
  rcases commit_advances sound halfway.stored halfway.shows named
    (halfway.staged (record, offset) List.mem_cons_self) committed with ⟨advances, arena⟩
  rcases commit_ok committed with ⟨same, _, _, indexType, _⟩
  refine ⟨after, next, committed, ⟨advances.sound, advances.frame, advances.same⟩, ?_⟩
  exact {
    config := same.config.trans halfway.config
    indexType := indexType.trans halfway.indexType
    stored := advances.stored
    shows := advances.shows
    indexed := indexed
    staged := by
      intro pair member
      rw [same.components, same.vectorBytes,
        components_unwritten collection advances.frame.capacity arena]
      exact halfway.staged pair (List.mem_cons_of_mem _ member)
    held := fun pair member => List.mem_map_of_mem member }

/-- What a step leaves of an update: its point has come, or it goes on. -/
inductive Outcome (allocator : MemoryAllocator) (collection : Collection) (entry : Entry)
    (update : Update) : Phase → Prop
  | answered {status : Status} {after : Entry} (updates : entry.Updates update status after)
      (settled : Settled allocator collection after) :
      Outcome allocator collection entry update (.answered status)
  | going {phase : Phase} (underway : Underway allocator collection entry update phase) :
      Outcome allocator collection entry update phase

theorem Halfway.remove (sound : allocator.Sound)
    (settled : Settled allocator collection entry) (id : RecordId) :
    ∃ status allocator' next, collection.remove allocator id = .ok (status, allocator', next) ∧
      Confined allocator allocator' collection next ∧
      ∃ after, entry.Updates (.remove id) status after ∧ Settled allocator' next after := by
  rcases remove_total allocator settled.indexed settled.shows id with
    ⟨status, after, next, done, indexed⟩
  have advances := remove_advances sound settled.stored settled.shows done
  have confined : Confined allocator after collection next :=
    ⟨advances.sound, advances.frame, advances.same⟩
  refine ⟨status, after, next, done, confined, ?_⟩
  cases found : collection.records.find? id with
  | none =>
      simp only [Collection.remove, found] at done
      cases done
      have missing : ¬ entry.view.contains id = true := by
        rw [OrderedMap.contains, settled.shows.absent found]
        exact Bool.false_ne_true
      exact ⟨entry, .rejected (by rw [Entry.reject, if_neg missing]), settled⟩
  | some slot =>
      rcases settled.shows.slot found with ⟨vec, _, known⟩
      simp only [Collection.remove, found] at done
      rcases bind_ok done with ⟨final, taken, last⟩
      rcases indexRemove_ok taken with ⟨index, failed, shape⟩
      cases last
      have present : entry.view.contains id = true := by
        rw [OrderedMap.contains, known]
        rfl
      refine ⟨entry.apply (.remove id), .made (by rw [Entry.reject, if_pos present]), ?_⟩
      exact {
        config := advances.same.config.trans settled.config
        indexType := by
          rw [shape]
          exact settled.indexType
        stored := advances.stored
        shows := advances.shows
        indexed := indexed
        staged := fun _ member => by cases member
        held := fun _ member => by cases member }

theorem rejectBuild_outline (settled : Settled allocator collection entry) (type : IndexType)
    (params : IndexParams) :
    collection.rejectBuild type params = entry.outline.rejectBuild type params := by
  have count : collection.recordCount = entry.view.size := by
    rw [settled.stored.counted, settled.shows.size]
  cases type with
  | none => rfl
  | hnsw => rfl
  | ivf =>
      simp only [rejectBuild, count]
      rfl

variable (host) in
theorem Halfway.buildIndex (sound : allocator.Sound)
    (settled : Settled allocator collection entry) (type : IndexType) (params : IndexParams) :
    ∃ status next, collection.buildIndex host allocator type params = .ok (status, next) ∧
      Confined allocator allocator collection next ∧
      ∃ after, entry.Updates (.buildIndex type params) status after ∧
        Settled allocator next after := by
  rcases buildIndex_total host settled.indexed settled.shows settled.stored.named type params with
    ⟨status, next, done, indexed⟩
  rcases buildIndex_ok done with ⟨same, records, count⟩
  have advances := settled.stored.reindexed sound settled.shows same records count
  refine ⟨status, next, done, ⟨sound, advances.frame, same⟩, ?_⟩
  have outline := rejectBuild_outline settled type params
  cases valid : collection.rejectBuild type params with
  | some error =>
      simp only [Collection.buildIndex, valid] at done
      cases done
      rw [valid] at outline
      exact ⟨entry, .rejected outline.symm, settled⟩
  | none =>
      rcases newIndex_sound collection.config type params with ⟨fresh, _⟩
      rcases populate_total host settled.shows settled.stored.named collection.records.entries
        (fun item member => (OrderedMap.find_eq_some_iff _ _ _).mpr member) fresh with
        ⟨final, built, _⟩
      simp only [Collection.buildIndex, valid, bind, Except.bind, built] at done
      cases done
      rw [valid] at outline
      refine ⟨entry.apply (.buildIndex type params), .made outline.symm, ?_⟩
      exact {
        config := settled.config
        indexType := rfl
        stored := advances.stored
        shows := advances.shows
        indexed := indexed
        staged := fun _ member => by cases member
        held := fun _ member => by cases member }

theorem reject_records (valid : update.reject entry.config = none) :
    ∀ record ∈ update.records, record.id ≠ [] ∧
      record.vector.length = entry.config.dimensionality.toNat := by
  intro record member
  cases update with
  | insert id vec metadata =>
      have accepted := @rejectInsert_none entry.outline id vec valid
      rw [List.mem_singleton.mp member]
      exact ⟨accepted.1, accepted.2.1⟩
  | insertBatch records =>
      have accepted := @rejectBatch_none entry.outline records valid record member
      exact ⟨accepted.1, accepted.2.1⟩
  | remove id => cases member
  | buildIndex type params => cases member

theorem Update.Allocates.reject (allocates : update.Allocates) :
    entry.reject update = update.reject entry.config := by
  cases update with
  | insert => rfl
  | insertBatch => rfl
  | remove => cases allocates
  | buildIndex => cases allocates

theorem Update.Allocates.apply (allocates : update.Allocates) :
    entry.apply update = { entry with view := insertedAll entry.view update.records } := by
  cases update with
  | insert => rfl
  | insertBatch => rfl
  | remove => cases allocates
  | buildIndex => cases allocates

variable (host) in
/-- One case for each phase: a step comes through, stays in its collection and
leaves less to do. -/
theorem advance_spec {phase : Phase} (sound : allocator.Sound)
    (underway : Underway allocator collection entry update phase) :
    ∃ allocator' next later, advance host allocator collection update phase =
        .ok (allocator', next, later) ∧
      Confined allocator allocator' collection next ∧
      Outcome allocator' next entry update later ∧
      later.work update < phase.work update := by
  rcases underway with ⟨valid, stands⟩
  have accepted := reject_records valid
  cases phase with
  | started =>
      have stays : Confined allocator allocator collection collection :=
        Confined.refl sound collection
      have start : update.Allocates →
          Outcome allocator collection entry update (.staging [] update.records) :=
        fun allocates => .going ⟨valid, allocates, [], rfl, rfl, stands⟩
      cases update with
      | insert id vec metadata =>
          exact ⟨allocator, collection, _, rfl, stays, start trivial, by simp [Phase.work]; omega⟩
      | insertBatch records =>
          exact ⟨allocator, collection, _, rfl, stays, start trivial, by simp [Phase.work]; omega⟩
      | remove id =>
          rcases stands.remove sound id with ⟨status, after, next, done, confined, final, updates,
            settled⟩
          refine ⟨after, next, .answered status, ?_, confined, .answered updates settled,
            by simp [Phase.work]⟩
          simp only [advance, done]
          rfl
      | buildIndex type params =>
          rcases stands.buildIndex host sound type params with ⟨status, next, done, confined, final,
            updates, settled⟩
          refine ⟨allocator, next, .answered status, ?_, confined, .answered updates settled,
            by simp [Phase.work]⟩
          simp only [advance, done]
          rfl
  | staging staged pending =>
      rcases stands with ⟨allocates, pairs, records, blocks, halfway⟩
      cases pending with
      | nil =>
          have zipped : update.records.zip staged =
              pairs.map (fun pair => (pair.1, arenaBlock collection.vectorBytes pair.2)) := by
            rw [records, List.append_nil, blocks, blocksOf, List.zip_map_right, List.zip_map']
            simp
          refine ⟨allocator, collection, _, rfl, Confined.refl sound collection,
            .going ⟨valid, allocates, [], pairs, ?_, zipped, halfway⟩, ?_⟩
          · rw [records, List.append_nil, List.nil_append]
          · simp [Phase.work, records]
      | cons record rest =>
          cases granted : allocator.allocate collection.vectorBytes collection.tag with
          | error error =>
              refine ⟨allocator, collection, .givingBack staged error, ?_,
                Confined.refl sound collection,
                .going ⟨valid, allocates, allocate_category granted, pairs.map Prod.snd, blocks,
                  ?_⟩, ?_⟩
              · simp only [advance, granted]
                rfl
              · exact { halfway with
                  staged := fun _ member => by cases member
                  held := fun _ member => by cases member }
              · simp [Phase.work]
                omega
          | ok result =>
              rcases result with ⟨block, allocated⟩
              rcases halfway.allocate sound granted with ⟨confined, offset, isBlock, grown⟩
              refine ⟨allocated, collection, .copying staged block record rest, ?_, confined,
                .going ⟨valid, allocates, pairs, offset, records, blocks, isBlock, grown⟩, ?_⟩
              · simp only [advance, granted]
                rfl
              · simp [Phase.work]
                omega
  | copying staged block record pending =>
      rcases stands with ⟨allocates, pairs, offset, records, blocks, isBlock, halfway⟩
      have sized := (accepted record (by rw [records]; simp)).2
      rw [← halfway.config] at sized
      rcases halfway.copy sound sized with ⟨confined, copied⟩
      rw [← isBlock] at confined copied
      refine ⟨_, collection, .staging (staged ++ [block]) pending, rfl, confined,
        .going ⟨valid, allocates, pairs ++ [(record, offset)], ?_, ?_, copied⟩, ?_⟩
      · rw [records, List.map_append, List.append_assoc]
        rfl
      · rw [blocks, isBlock, blocksOf, blocksOf, List.map_append, List.map_append]
        rfl
      · simp [Phase.work]
        omega
  | givingBack blocks error =>
      rcases stands with ⟨allocates, category, loose, isLoose, halfway⟩
      cases loose with
      | nil =>
          rw [isLoose]
          have exhausted : entry.Updates update (.error error) entry :=
            .exhausted (by rw [allocates.reject]; exact valid) allocates category
          exact ⟨allocator, collection, .answered (.error error), rfl,
            Confined.refl sound collection, .answered exhausted halfway, by simp [Phase.work, blocksOf]⟩
      | cons offset rest =>
          rw [isLoose]
          rcases halfway.giveBack sound with ⟨confined, less⟩
          exact ⟨_, collection, .givingBack (blocksOf collection rest) error, rfl, confined,
            .going ⟨valid, allocates, category, rest, rfl, less⟩, by simp [Phase.work, blocksOf]⟩
  | committing waiting =>
      rcases stands with ⟨allocates, done, rest, records, isPairs, halfway⟩
      cases rest with
      | nil =>
          rw [isPairs]
          rw [List.map_nil, List.append_nil] at records
          have made : entry.Updates update (.ok ()) (entry.apply update) :=
            .made (by rw [allocates.reject]; exact valid)
          rw [allocates.apply, records] at made
          exact ⟨allocator, collection, .answered (.ok ()), rfl, Confined.refl sound collection,
            .answered made ⟨halfway.config, halfway.indexType, halfway.stored, halfway.shows,
              halfway.indexed, halfway.staged, halfway.held⟩, by simp [Phase.work]⟩
      | cons pair rest =>
          rcases pair with ⟨record, offset⟩
          rcases accepted record (by rw [records]; simp) with ⟨named, sized⟩
          rw [← halfway.config] at sized
          rcases halfway.commit host sound named sized with ⟨after, next, committed, confined,
            later⟩
          rw [isPairs]
          refine ⟨after, next, .committing (rest.map
            (fun pair => (pair.1, arenaBlock next.vectorBytes pair.2))), ?_, confined,
            .going ⟨valid, allocates, done ++ [record], rest, ?_, rfl, ?_⟩, by simp [Phase.work]⟩
          · simp only [List.map_cons, advance, committed, confined.same.vectorBytes]
            rfl
          · rw [records, List.append_assoc]
            rfl
          · rw [insertedAll, List.foldl_append]
            exact later
  | answered status => cases stands

end Steps

section Alone

variable {D : Type} [FloatOrder D] (host : Host D) (update : Update)

def Update.perform (allocator : MemoryAllocator) (collection : Collection) :
    Update → Run (Status × MemoryAllocator × Collection)
  | .insert id vec metadata => collection.insert host allocator id vec metadata
  | .insertBatch records => collection.insertBatch host allocator records
  | .remove id => collection.remove allocator id
  | .buildIndex type params => do
      let (status, after) ← collection.buildIndex host allocator type params
      return (status, allocator, after)

theorem complete_step {phase later : Phase} {allocator after : MemoryAllocator}
    {collection next : Collection}
    (moved : advance host allocator collection update phase = .ok (after, next, later))
    (going : ∀ status, phase ≠ .answered status) (fuel : Nat) :
    complete host update (fuel + 1) allocator collection phase =
      complete host update fuel after next later := by
  cases phase with
  | answered status => exact absurd rfl (going status)
  | started => simp only [complete, moved, bind, Except.bind]
  | staging => simp only [complete, moved, bind, Except.bind]
  | copying => simp only [complete, moved, bind, Except.bind]
  | givingBack => simp only [complete, moved, bind, Except.bind]
  | committing => simp only [complete, moved, bind, Except.bind]

theorem complete_givingBack (blocks : List Block) (error : Error) (fuel : Nat)
    (allocator : MemoryAllocator) (collection : Collection) (enough : blocks.length + 1 ≤ fuel) :
    complete host update fuel allocator collection (.givingBack blocks error) =
      .ok (some (.error error, blocks.foldl MemoryAllocator.release allocator, collection)) := by
  induction blocks generalizing fuel allocator with
  | nil =>
      rcases Nat.exists_eq_add_of_le' enough with ⟨less, isFuel⟩
      rw [isFuel]
      cases less <;> rfl
  | cons block rest ih =>
      rcases Nat.exists_eq_add_of_le' enough with ⟨less, isFuel⟩
      rw [isFuel]
      exact ih (less + (rest.length + 1)) (allocator.release block) (by omega)

theorem complete_committing (pairs : List (RecordInput × Block)) (fuel : Nat)
    (allocator : MemoryAllocator) (collection : Collection) (enough : pairs.length + 1 ≤ fuel) :
    complete host update fuel allocator collection (.committing pairs) = (do
      let (released, committed) ← commitAll host pairs allocator collection
      return some (.ok (), released, committed)) := by
  induction pairs generalizing fuel allocator collection with
  | nil =>
      rcases Nat.exists_eq_add_of_le' enough with ⟨less, isFuel⟩
      rw [isFuel]
      cases less <;> rfl
  | cons pair rest ih =>
      rcases pair with ⟨record, block⟩
      rcases Nat.exists_eq_add_of_le' enough with ⟨less, isFuel⟩
      have isMore : fuel = less + (rest.length + 1) + 1 := isFuel
      rw [isMore]
      simp only [complete, advance, commitAll]
      cases commit host allocator collection record.id record.vector record.metadata block with
      | error fault => rfl
      | ok final => exact ih (less + (rest.length + 1)) final.1 final.2 (by omega)

/-- Induction over the records not staged yet. -/
theorem complete_staging (pending : List RecordInput) (staged : List Block) (fuel : Nat)
    (allocator : MemoryAllocator) (collection : Collection)
    (enough : (Phase.staging staged pending).work update ≤ fuel) :
    complete host update fuel allocator collection (.staging staged pending) =
      (match stage collection.vectorBytes collection.tag pending staged allocator with
        | (.error error, rolledBack) => return some (.error error, rolledBack, collection)
        | (.ok blocks, stored) => do
            let (released, committed) ← commitAll host (update.records.zip blocks) stored collection
            return some (.ok (), released, committed)) := by
  induction pending generalizing staged fuel allocator with
  | nil =>
      simp only [Phase.work, List.length_nil] at enough
      rcases Nat.exists_eq_add_of_le' (show 1 ≤ fuel by omega) with ⟨less, isFuel⟩
      rw [isFuel]
      have short : (update.records.zip staged).length + 1 ≤ less := by
        rw [List.length_zip]
        omega
      exact complete_committing host update _ less allocator collection short
  | cons record rest ih =>
      simp only [Phase.work, List.length_cons] at enough
      rcases Nat.exists_eq_add_of_le' (show 2 ≤ fuel by omega) with ⟨less, isFuel⟩
      rw [isFuel]
      cases granted : allocator.allocate collection.vectorBytes collection.tag with
      | error error =>
          have moved : advance host allocator collection update (.staging staged (record :: rest)) =
              .ok (allocator, collection, .givingBack staged error) := by
            simp only [advance, granted]
            rfl
          simp only [stage, granted]
          rw [complete_step host update moved (fun _ same => by cases same),
            complete_givingBack host update staged error (less + 1) allocator collection (by omega)]
          rfl
      | ok result =>
          rcases result with ⟨block, allocated⟩
          have moved : advance host allocator collection update (.staging staged (record :: rest)) =
              .ok (allocated, collection, .copying staged block record rest) := by
            simp only [advance, granted]
            rfl
          have later := ih (staged ++ [block]) less
            (storeComponents allocated block record.vector) (by
              simp only [Phase.work, List.length_append, List.length_singleton]
              omega)
          simp only [stage, granted]
          rw [← later, complete_step host update moved (fun _ same => by cases same),
            complete_step host update rfl (fun _ same => by cases same)]

theorem complete_alone (allocator : MemoryAllocator) (collection : Collection)
    (valid : update.reject collection.config = none) :
    complete host update (Phase.started.work update) allocator collection .started = (do
      let (status, after, next) ← update.perform host allocator collection
      return some (status, after, next)) := by
  have first : ∀ records, update.records = records →
      advance host allocator collection update .started =
        .ok (allocator, collection, .staging [] records) →
      complete host update (Phase.started.work update) allocator collection .started =
        (match stage collection.vectorBytes collection.tag records [] allocator with
          | (.error error, rolledBack) => return some (.error error, rolledBack, collection)
          | (.ok blocks, stored) => do
              let (released, committed) ← commitAll host (records.zip blocks) stored collection
              return some (.ok (), released, committed)) := by
    intro records isRecords moves
    have staging := complete_staging host update records []
      (4 * update.records.length + 2) allocator collection (by
        simp only [Phase.work, List.length_nil, isRecords]
        omega)
    rw [Phase.work, complete_step host update moves (fun _ same => by cases same), staging,
      isRecords]
  cases update with
  | insert id vec metadata =>
      rw [first [⟨id, vec, metadata⟩] rfl rfl]
      have accepted : rejectInsert collection.config id vec = none := valid
      simp only [Update.perform, Collection.insert, accepted, stage]
      cases granted : allocator.allocate collection.vectorBytes collection.tag with
      | error error => rfl
      | ok result =>
          rcases result with ⟨block, allocated⟩
          simp only [List.nil_append, List.zip_cons_cons, List.zip_nil_right, commitAll]
          cases committed : commit host (storeComponents allocated block vec) collection id vec
            metadata block with
          | error fault => rfl
          | ok final => rfl
  | insertBatch records =>
      rw [first records rfl rfl]
      have accepted : rejectBatch collection.config records = none := valid
      simp only [Update.perform, Collection.insertBatch, accepted]
      cases stage collection.vectorBytes collection.tag records [] allocator with
      | mk outcome stored =>
          cases outcome with
          | error error => rfl
          | ok blocks =>
              simp only
              cases commitAll host (records.zip blocks) stored collection with
              | error fault => rfl
              | ok final => rfl
  | remove id =>
      simp only [Phase.work, complete, advance, Update.perform]
      cases collection.remove allocator id with
      | error fault => rfl
      | ok final => rfl
  | buildIndex type params =>
      simp only [Phase.work, complete, advance, Update.perform]
      cases collection.buildIndex host allocator type params with
      | error fault => rfl
      | ok final => rfl

def crowdedBatch : Update := .insertBatch [⟨[1], [0], none⟩, ⟨[2], [4], none⟩, ⟨[1], [8], none⟩]

def failureOf : Status → Option ErrorCategory
  | .ok _ => none
  | .error error => some error.category

/-- The third block is refused, and the phases give the first two back. -/
theorem complete_alone_of_crowded_batch :
    ∃ status after next,
      crowdedBatch.perform (ExactLine.host []) (MemoryAllocator.new 128 (fun _ => 0))
        (Collection.new ⟨[97], 1, .euclidean⟩ 1) = .ok (status, after, next) ∧
      failureOf status = some .allocationFailure ∧ after.stats = ⟨0, 0⟩ ∧ next.recordCount = 0 ∧
      complete (ExactLine.host []) crowdedBatch (Phase.started.work crowdedBatch)
        (MemoryAllocator.new 128 (fun _ => 0)) (Collection.new ⟨[97], 1, .euclidean⟩ 1) .started =
          .ok (some (status, after, next)) := by
  have told : (crowdedBatch.perform (ExactLine.host []) (MemoryAllocator.new 128 (fun _ => 0))
      (Collection.new ⟨[97], 1, .euclidean⟩ 1)).toOption.any (fun result =>
        decide (failureOf result.1 = some .allocationFailure ∧ result.2.1.stats = ⟨0, 0⟩ ∧
          result.2.2.recordCount = 0)) = true := by
    decide +kernel
  have alone := complete_alone (ExactLine.host []) crowdedBatch
    (MemoryAllocator.new 128 (fun _ => 0)) (Collection.new ⟨[97], 1, .euclidean⟩ 1) (by decide)
  rcases ok_of_any told with ⟨⟨status, after, next⟩, performed, facts⟩
  rcases of_decide_eq_true facts with ⟨refused, empty, unstored⟩
  rw [performed] at alone
  exact ⟨status, after, next, performed, refused, empty, unstored, alone⟩

end Alone

end VectorVault.Concurrent
