import VectorVault.EngineHistories
import VectorVault.FiniteVectors
import VectorVault.SnapshotRoundTrip

/-! Where the vectors of stored records begin.

Every block of the arena begins at a multiple of 64 bytes. The vectors of a loaded
file follow one another in the mapping without a gap, so only the first is aligned
whatever the dimensionality. No operation puts a vector into the mapping. -/

namespace VectorVault

open Snapshot Collection PersistenceManager

def Pointer.address (arenaBase mappingBase : Nat) : Pointer → Option Nat
  | .null => none
  | .arena offset => some (arenaBase + offset)
  | .mapped offset => some (mappingBase + offset)

def RecordSlot.Aligned (arenaBase mappingBase : Nat) (slot : RecordSlot) : Prop :=
  ∃ address, slot.vectorBlock.data.address arenaBase mappingBase = some address ∧
    MemoryAllocator.alignment ∣ address

namespace Collection

/-- The vectors that are in the mapping are aligned in it. -/
def MappedAligned (collection : Collection) : Prop :=
  ∀ id slot offset, collection.records.find? id = some slot →
    slot.vectorBlock.data = .mapped offset → MemoryAllocator.alignment ∣ offset

def MappedFrom (collection next : Collection) : Prop :=
  ∀ id slot offset, next.records.find? id = some slot →
    slot.vectorBlock.data = .mapped offset → collection.records.find? id = some slot

variable {collection next : Collection}

theorem MappedFrom.refl (collection : Collection) : collection.MappedFrom collection :=
  fun _ _ _ found _ => found

theorem MappedFrom.of_records (same : next.records = collection.records) :
    collection.MappedFrom next := by
  intro id slot offset found _
  rw [same] at found
  exact found

theorem MappedFrom.trans {last : Collection} (first : collection.MappedFrom next)
    (second : next.MappedFrom last) : collection.MappedFrom last :=
  fun id slot offset found isMapped => first id slot offset (second id slot offset found isMapped)
    isMapped

theorem MappedAligned.kept (aligned : collection.MappedAligned)
    (mapped : collection.MappedFrom next) : next.MappedAligned :=
  fun id slot offset found isMapped =>
    aligned id slot offset (mapped id slot offset found isMapped) isMapped

end Collection

def Block.Unmapped (block : Block) : Prop := ∀ offset, block.data ≠ .mapped offset

section Operations

variable {D : Type} [FloatOrder D] {host : Host D} {allocator allocator' : MemoryAllocator}
  {collection next : Collection}

theorem allocate_unmapped {bytes tag : Nat} {block : Block}
    (granted : allocator.allocate bytes tag = .ok (block, allocator')) : block.Unmapped := by
  unfold MemoryAllocator.allocate at granted
  split at granted
  · cases granted
  · cases granted
    intro _ isMapped
    cases isMapped

theorem commit_mapped {id : RecordId} {vec : List F32} {metadata : Option Metadata} {block : Block}
    (unmapped : block.Unmapped)
    (done : commit host allocator collection id vec metadata block = .ok (allocator', next)) :
    collection.MappedFrom next := by
  intro other slot offset found isMapped
  rw [(commit_ok done).2.1, OrderedMap.find_insert] at found
  split at found
  · cases found
    exact absurd isMapped (unmapped offset)
  · exact found

theorem stage_unmapped {bytes tag : Nat} {records : List RecordInput} {staged blocks : List Block}
    (unmapped : ∀ block ∈ staged, block.Unmapped)
    (done : stage bytes tag records staged allocator = (.ok blocks, allocator')) :
    ∀ block ∈ blocks, block.Unmapped := by
  induction records generalizing staged allocator with
  | nil =>
      cases done
      exact unmapped
  | cons record rest ih =>
      rw [stage] at done
      cases granted : allocator.allocate bytes tag with
      | error error =>
          rw [granted] at done
          cases done
      | ok result =>
          rw [granted] at done
          apply ih _ done
          intro block member
          rcases List.mem_append.mp member with earlier | here
          · exact unmapped block earlier
          · rw [List.mem_singleton.mp here]
            exact allocate_unmapped granted

theorem commitAll_mapped {pairs : List (RecordInput × Block)}
    (unmapped : ∀ pair ∈ pairs, pair.2.Unmapped)
    (done : commitAll host pairs allocator collection = .ok (allocator', next)) :
    collection.MappedFrom next := by
  induction pairs generalizing allocator collection with
  | nil =>
      cases done
      exact MappedFrom.refl _
  | cons pair rest ih =>
      rcases bind_ok done with ⟨⟨middle, committed⟩, first, later⟩
      have here := commit_mapped (unmapped pair List.mem_cons_self) first
      exact here.trans
        (ih (fun other member => unmapped other (List.mem_cons_of_mem pair member)) later)

theorem insert_mapped {id : RecordId} {vec : List F32} {metadata : Option Metadata}
    {status : Status}
    (done : collection.insert host allocator id vec metadata = .ok (status, allocator', next)) :
    collection.MappedFrom next := by
  unfold Collection.insert at done
  split at done
  · cases done
    exact MappedFrom.refl _
  · split at done
    · cases done
      exact MappedFrom.refl _
    · next granted =>
        rcases bind_ok done with ⟨_, committed, same⟩
        cases same
        exact commit_mapped (allocate_unmapped granted) committed

theorem insertBatch_mapped {records : List RecordInput} {status : Status}
    (done : collection.insertBatch host allocator records = .ok (status, allocator', next)) :
    collection.MappedFrom next := by
  unfold Collection.insertBatch at done
  split at done
  · cases done
    exact MappedFrom.refl _
  · split at done
    · cases done
      exact MappedFrom.refl _
    · next staged =>
        rcases bind_ok done with ⟨_, committed, same⟩
        cases same
        have unmapped := stage_unmapped (fun block member => by cases member) staged
        exact commitAll_mapped (fun pair member => unmapped pair.2 (List.of_mem_zip member).2)
          committed

theorem remove_mapped {id : RecordId} {status : Status}
    (done : collection.remove allocator id = .ok (status, allocator', next)) :
    collection.MappedFrom next := by
  unfold Collection.remove at done
  split at done
  · cases done
    exact MappedFrom.refl _
  · rcases bind_ok done with ⟨indexed, removed, same⟩
    cases same
    rcases indexRemove_ok removed with ⟨_, _, shape⟩
    intro other slot offset found _
    rw [shape, OrderedMap.find_erase] at found
    split at found
    · cases found
    · exact found

theorem Operated.mapped (operated : Operated host allocator collection allocator' next) :
    collection.MappedFrom next := by
  cases operated with
  | insert done => exact insert_mapped done
  | insertBatch done => exact insertBatch_mapped done
  | remove done => exact remove_mapped done
  | buildIndex done => exact .of_records (buildIndex_ok done).2.1
  | query done =>
      rcases queryWith_ok done with unchanged | ⟨_, _, _, _, _, shape⟩
      · exact .of_records (by rw [unchanged])
      · exact .of_records (by rw [shape])

theorem slots_aligned (sound : allocator.Sound) (stored : collection.Stored allocator [])
    (mapped : collection.MappedAligned) {arenaBase mappingBase : Nat}
    (arenaAligned : MemoryAllocator.alignment ∣ arenaBase)
    (mappingAligned : MemoryAllocator.alignment ∣ mappingBase) {id : RecordId} {slot : RecordSlot}
    (found : collection.records.find? id = some slot) : slot.Aligned arenaBase mappingBase := by
  rcases stored.backed id slot found with ⟨offset, block⟩ | ⟨offset, block, _⟩
  · have isOffset : slot.arenaOffset = some offset := by
      simp only [RecordSlot.arenaOffset, block]
    rcases stored.offset_live found isOffset with ⟨record, held, _⟩
    have live : allocator.footprint offset = some record.roundedBytes :=
      (MemoryAllocator.footprint_eq_some _ _ _).mpr ⟨record, held, rfl⟩
    have aligned := (sound.tiled.liveAligned offset _ live).1
    exact ⟨arenaBase + offset, by rw [block]; rfl, dvd_add arenaAligned aligned⟩
  · have aligned := mapped id slot offset found (by rw [block])
    exact ⟨mappingBase + offset, by rw [block]; rfl, dvd_add mappingAligned aligned⟩

end Operations

section Images

variable {data : CollectionSnapshotData} {header : Header}

theorem leading_aligned (data : CollectionSnapshotData) :
    MemoryAllocator.alignment ∣ headerSize + (leading data).length := by
  simp only [leading, padding, List.length_append, List.length_replicate, alignment,
    MemoryAllocator.alignment]
  omega

theorem headerOf_aligned (data : CollectionSnapshotData) (vectors : Bytes) :
    MemoryAllocator.alignment ∣ (headerOf data vectors).vectorRegionOff.toNat := by
  have isOff : (headerOf data vectors).vectorRegionOff.toNat =
      (headerSize + (leading data).length) % 2 ^ 64 := UInt64.toNat_ofNat'
  rw [isOff, Nat.dvd_mod_iff (by decide)]
  exact leading_aligned data

theorem position_aligned_iff (off : MemoryAllocator.alignment ∣ header.vectorRegionOff.toNat)
    (vectorIndex : UInt64) :
    MemoryAllocator.alignment ∣ position header vectorIndex ↔
      MemoryAllocator.alignment ∣ vectorIndex.toNat * (header.dimensionality.toNat * 4) := by
  have divides : MemoryAllocator.alignment ∣ 2 ^ 64 := by decide
  rw [position, UInt64.toNat_add, UInt64.toNat_mul, Nat.dvd_mod_iff divides,
    Nat.dvd_add_right off, Nat.dvd_mod_iff divides, stride_toNat]

end Images

section Load

variable {path : Bytes} {allocator : MemoryAllocator} {content : FileContent} {tag : Nat}
  {collection : Collection} {data : CollectionSnapshotData}

/-- An image with at most one vector, or with vectors of whole multiples of 64 bytes. -/
def Spaced (content : FileContent) : Prop :=
  ∃ data, encode data = .ok content.bytes ∧
    (16 ∣ data.config.dimensionality.toNat ∨ data.records.length ≤ 1)

def SpacedFile (file : SnapshotFile) : Prop :=
  ∀ content, file = .regular content → Spaced content

theorem accepted_image {preamble : Preamble} (encoded : encode data = .ok content.bytes)
    (accepted : preamble.Accepted path (.regular content)) :
    ∃ vectors, preamble.header = headerOf data vectors := by
  rcases encode_ok encoded with ⟨vectors, _, isImage⟩
  rcases accepted.content with ⟨_, isFile, isContent⟩
  cases isFile
  have header := accepted.header
  have small := lt_trans content.sized (show 2 ^ 63 < word by decide)
  rw [isImage] at small
  rw [← isContent, isImage, readHeader_fileOf _ _ _ small, Except.ok.injEq] at header
  exact ⟨vectors, header.symm⟩

theorem load_spaced (spaced : Spaced content)
    (loaded : load path allocator (.regular content) tag = .ok (.ok collection)) :
    collection.MappedAligned := by
  rcases spaced with ⟨data, encoded, even⟩
  rcases load_ok loaded with ⟨preamble, records, reader, stages⟩
  rcases accepted_image encoded stages.accepted with ⟨vectors, isHeader⟩
  intro id slot offset found isMapped
  have listed : records.find? id = some slot := by
    rw [stages.result] at found
    exact found
  rcases stages.listed.windows id slot listed with ⟨vectorIndex, indexed, block, _⟩
  rw [block] at isMapped
  cases isMapped
  rw [isHeader] at indexed ⊢
  rw [position_aligned_iff (headerOf_aligned data vectors)]
  rcases even with multiple | few
  · have stride : MemoryAllocator.alignment ∣ data.config.dimensionality.toNat * 4 :=
      Nat.mul_dvd_mul multiple (dvd_refl 4)
    exact Dvd.dvd.mul_left stride _
  · have count : (headerOf data vectors).recordCount.toNat = data.records.length :=
      UInt64.toNat_ofNat_of_lt' (lt_of_le_of_lt few (by decide))
    rw [UInt64.lt_iff_toNat_lt, count] at indexed
    have first : vectorIndex.toNat = 0 := by omega
    rw [first, Nat.zero_mul]
    exact dvd_zero MemoryAllocator.alignment

theorem load_records (encodable : data.Encodable) (encoded : encode data = .ok content.bytes)
    (small : content.bytes.length < 2 ^ 46)
    (loaded : load path allocator (.regular content) tag = .ok (.ok collection)) :
    collection.records = recordsAt (writtenHeader data) data.records := by
  rcases load_ok loaded with ⟨preamble, records, reader, stages⟩
  rcases load_written path encodable (written_image encodable encoded) small with
    ⟨start, next, parsed, read, _⟩
  have same := stages.parsed
  rw [parsed, Except.ok.injEq] at same
  have directory := stages.directory
  rw [← same, read, Except.ok.injEq, Except.ok.injEq, Prod.mk.injEq] at directory
  rw [stages.result, directory.1]
  rfl

theorem load_aligned_iff (encodable : data.Encodable)
    (encoded : encode data = .ok content.bytes) (small : content.bytes.length < 2 ^ 46)
    (loaded : load path allocator (.regular content) tag = .ok (.ok collection)) :
    collection.MappedAligned ↔
      (16 ∣ data.config.dimensionality.toNat ∨ data.records.length ≤ 1) := by
  constructor
  · intro aligned
    rcases Nat.lt_or_ge 1 data.records.length with several | few
    · have found := (recordsAt_find (writtenHeader data) encodable.distinct
        (data.records.get ⟨1, several⟩).id _).mpr
          ⟨1, _, List.getElem?_eq_getElem several, rfl, rfl⟩
      rw [← load_records encodable encoded small loaded] at found
      have off : MemoryAllocator.alignment ∣ (writtenHeader data).vectorRegionOff.toNat :=
        headerOf_aligned data _
      have second := (position_aligned_iff off 1).mp (aligned _ _ _ found rfl)
      have stride : 16 * 4 ∣ data.config.dimensionality.toNat * 4 := by
        rw [← Nat.one_mul (data.config.dimensionality.toNat * 4)]
        exact second
      exact Or.inl ((Nat.mul_dvd_mul_iff_right (by decide)).mp stride)
    · exact Or.inr few
  · intro even
    exact load_spaced ⟨data, encoded, even⟩ loaded

end Load

namespace World

variable {D : Type} [FloatOrder D] {host : Host D}

theorem operated_aligned {allocator allocator' : MemoryAllocator} {collection next : Collection}
    {view : OrderedMap RecordId RecordView}
    (operated : Operated host allocator collection allocator' next) (sound : allocator.Sound)
    (stored : collection.Stored allocator []) (shows_ : collection.Shows allocator view)
    (aligned : collection.MappedAligned) :
    ∃ viewAfter, Advances [] allocator allocator' collection next viewAfter ∧
      next.MappedAligned := by
  rcases operated.advances sound stored shows_ with ⟨viewAfter, advances⟩
  exact ⟨viewAfter, advances, aligned.kept operated.mapped⟩

theorem load_aligned {path : Bytes} {allocator : MemoryAllocator} {file : SnapshotFile} {tag : Nat}
    {collection : Collection} (spaced : SpacedFile file)
    (loaded : load path allocator file tag = .ok (.ok collection)) :
    ∃ view, collection.Shows allocator view ∧ collection.MappedAligned := by
  rcases load_ok loaded with ⟨preamble, records, reader, stages⟩
  rcases stages.shows with ⟨view, shows_⟩
  rcases stages.accepted.content with ⟨content, isFile, _⟩
  rw [isFile] at loaded
  exact ⟨view, shows_, load_spaced (spaced content isFile) loaded⟩

/-- Every slot of every collection a run comes to, as long as the loaded images
keep their vectors apart by whole multiples of 64 bytes or have one at most. -/
theorem run_slots_aligned {capacity : UInt64} {garbage : Nat → UInt8} {commands : List Command}
    {statuses : List Status} {world : World}
    (loads : LoadsOnly host (fun _ => SpacedFile) (new capacity garbage) commands)
    (done : (new capacity garbage).run host commands = .ok (statuses, world))
    {arenaBase mappingBase : Nat} (arenaAligned : MemoryAllocator.alignment ∣ arenaBase)
    (mappingAligned : MemoryAllocator.alignment ∣ mappingBase) {name : Bytes}
    {collection : Collection} (found : world.engine.collections.find? name = some collection)
    {id : RecordId} {slot : RecordSlot} (held : collection.records.find? id = some slot) :
    slot.Aligned arenaBase mappingBase := by
  rcases run_each_loading (fun _ _ _ _ _ empty => by cases empty)
    (fun _ _ _ _ _ operated sound stored shows_ aligned =>
      operated_aligned operated sound stored shows_ aligned)
    (fun _ _ _ _ _ spaced loaded => load_aligned spaced loaded)
    (Engine.new_owned capacity garbage) (Engine.new_each capacity garbage) loads done
    with ⟨owned, each⟩
  rcases each name collection found with ⟨_, _, aligned⟩
  exact slots_aligned owned.sound (owned.stored name collection found) aligned arenaAligned
    mappingAligned held

def sixteens : CollectionSnapshotData :=
  { config := ⟨[99], 16, .euclidean⟩
    indexType := .none
    records := [⟨[97], List.replicate 16 0, none⟩, ⟨[98], List.replicate 16 0, none⟩]
    indexBlob := [] }

def sixteensFile : FileContent := ⟨(encode sixteens).toOption.getD [], by decide +kernel⟩

theorem run_slots_aligned_of_overwrite :
    ∃ statuses world collection slot, (new 256 (fun _ => 0)).run (ExactLine.host [])
        [.putFile [102] (.regular sixteensFile), .loadCollection [102],
          .insert [99] [97] (List.replicate 16 1) none] = .ok (statuses, world) ∧
      world.engine.collections.find? [99] = some collection ∧
      collection.records.find? [98] = some slot ∧ slot.Aligned 64 4096 := by
  have reaches : ∃ statuses world collection, (new 256 (fun _ => 0)).run (ExactLine.host [])
        [.putFile [102] (.regular sixteensFile), .loadCollection [102],
          .insert [99] [97] (List.replicate 16 1) none] = .ok (statuses, world) ∧
      world.engine.collections.find? [99] = some collection ∧
      (collection.records.find? [98]).isSome = true := exists_of_reached (by decide +kernel)
  rcases reaches with ⟨statuses, world, collection, done, found, present⟩
  rcases Option.isSome_iff_exists.mp present with ⟨slot, held⟩
  have spaced : Spaced sixteensFile :=
    ⟨sixteens, eq_ok_getD (by decide +kernel) [], Or.inl (by decide)⟩
  have loads : LoadsOnly (ExactLine.host []) (fun _ => SpacedFile) (new 256 (fun _ => 0))
      [.putFile [102] (.regular sixteensFile), .loadCollection [102],
        .insert [99] [97] (List.replicate 16 1) none] := by
    refine ⟨fun _ _ isLoad => by (cases isLoad), fun status middle put => ⟨?_, ?_⟩⟩
    · intro path after isLoad _ content isFile
      cases isLoad
      cases put
      rw [fileAt_insert, if_pos rfl] at isFile
      cases isFile
      exact spaced
    · exact fun _ _ _ => ⟨fun _ _ isLoad => by (cases isLoad), fun _ _ _ => trivial⟩
  exact ⟨statuses, world, collection, slot, done, found, held,
    run_slots_aligned loads done (by decide) (by decide) found held⟩

/-- The second of two vectors of one component, saved, dropped and loaded. -/
theorem load_misaligns_a_slot :
    ∃ statuses world collection slot, (new 256 (fun _ => 0)).run (ExactLine.host [])
        [.createCollection [99] 1 0, .insert [99] [97] [0] none, .insert [99] [98] [0] none,
          .saveCollection [99] [102] [103] .published, .deleteCollection [99] false,
          .loadCollection [102]] = .ok (statuses, world) ∧
      world.engine.collections.find? [99] = some collection ∧
      collection.records.find? [98] = some slot ∧
      ∀ arenaBase mappingBase, MemoryAllocator.alignment ∣ arenaBase →
        MemoryAllocator.alignment ∣ mappingBase → ¬ slot.Aligned arenaBase mappingBase := by
  have reaches : ∃ statuses world collection, (new 256 (fun _ => 0)).run (ExactLine.host [])
        [.createCollection [99] 1 0, .insert [99] [97] [0] none, .insert [99] [98] [0] none,
          .saveCollection [99] [102] [103] .published, .deleteCollection [99] false,
          .loadCollection [102]] = .ok (statuses, world) ∧
      world.engine.collections.find? [99] = some collection ∧
      (collection.records.find? [98]).any
        (fun slot => decide (slot.vectorBlock.data = .mapped 132)) = true :=
    exists_of_reached (by decide +kernel)
  rcases reaches with ⟨statuses, world, collection, done, found, told⟩
  rcases (Option.any_eq_true _ _).mp told with ⟨slot, held, isMapped⟩
  refine ⟨statuses, world, collection, slot, done, found, held, ?_⟩
  intro arenaBase mappingBase _ mapping aligned
  rcases aligned with ⟨address, isAddress, divides⟩
  rw [of_decide_eq_true isMapped] at isAddress
  cases isAddress
  rw [Nat.dvd_add_right mapping] at divides
  exact absurd divides (by decide)

end World

end VectorVault
