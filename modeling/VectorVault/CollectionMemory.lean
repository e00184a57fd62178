import VectorVault.AllocatorOwnership
import VectorVault.Collection

/-! The memory of one collection.

Its arena-backed slots and the blocks staged for it are the live blocks of its
tag. Every operation that comes through keeps that, frames the other tags, and
changes what `get` answers as the operation says. -/

namespace VectorVault

open Snapshot MemoryAllocator

/-- The arena offset of a slot's vector, for those that are not mapped. -/
def RecordSlot.arenaOffset (slot : RecordSlot) : Option Nat :=
  match slot.vectorBlock.data with
  | .arena offset => some offset
  | _ => none

def offsetsOf (records : OrderedMap RecordId RecordSlot) : List Nat :=
  records.entries.filterMap (fun entry => entry.2.arenaOffset)

theorem offsetsOf_insert (records : OrderedMap RecordId RecordSlot) (id : RecordId)
    (slot : RecordSlot) :
    (offsetsOf (records.insert id slot)).Perm
      (slot.arenaOffset.toList ++ offsetsOf (records.erase id)) := by
  have permuted := (records.insert_perm id slot).filterMap (fun entry => entry.2.arenaOffset)
  rw [List.filterMap_cons] at permuted
  cases offset : slot.arenaOffset with
  | none =>
      simp only [offset] at permuted
      exact permuted
  | some offset' =>
      simp only [offset] at permuted
      exact permuted

theorem offsetsOf_present {records : OrderedMap RecordId RecordSlot} {id : RecordId}
    {slot : RecordSlot} (found : records.find? id = some slot) :
    (offsetsOf records).Perm (slot.arenaOffset.toList ++ offsetsOf (records.erase id)) := by
  have restored : (records.insert id slot) = records := by
    apply OrderedMap.ext_find
    intro other
    rw [OrderedMap.find_insert]
    by_cases same : other = id
    · rw [if_pos same, same, found]
    · rw [if_neg same]
  have permuted := offsetsOf_insert records id slot
  rw [restored] at permuted
  exact permuted

theorem mem_offsetsOf (records : OrderedMap RecordId RecordSlot) (offset : Nat) :
    offset ∈ offsetsOf records ↔
      ∃ id slot, records.find? id = some slot ∧ slot.arenaOffset = some offset := by
  simp only [offsetsOf, List.mem_filterMap, Prod.exists, OrderedMap.find_eq_some_iff]

namespace Collection

def arenaOffsets (collection : Collection) : List Nat := offsetsOf collection.records

def Backed (collection : Collection) (slot : RecordSlot) : Prop :=
  (∃ offset, slot.vectorBlock = ⟨.arena offset, collection.vectorBytes⟩) ∨
    ∃ offset, slot.vectorBlock = ⟨.mapped offset, collection.vectorBytes⟩ ∧
      offset + collection.vectorBytes ≤ collection.mappedRegion.length

/-- `loose` are the offsets of blocks staged for the collection and not in a slot yet. -/
structure Stored (allocator : MemoryAllocator) (loose : List Nat) (collection : Collection) :
    Prop where
  counted : collection.recordCount = collection.records.size
  named : collection.records.find? [] = none
  backed : ∀ id slot, collection.records.find? id = some slot → collection.Backed slot
  holds : allocator.Holds collection.tag collection.vectorBytes (collection.arenaOffsets ++ loose)

def Shows (allocator : MemoryAllocator) (collection : Collection)
    (view : OrderedMap RecordId RecordView) : Prop :=
  ∀ id, collection.get allocator id = .ok
    (match view.find? id with
      | some record => .ok record
      | none => .error (noSuchRecord id))

structure Same (before after : Collection) : Prop where
  config : after.config = before.config
  tag : after.tag = before.tag
  mappedRegion : after.mappedRegion = before.mappedRegion

theorem Same.refl (collection : Collection) : collection.Same collection := ⟨rfl, rfl, rfl⟩

variable {allocator allocator' : MemoryAllocator} {collection next : Collection}
  {view : OrderedMap RecordId RecordView} {loose : List Nat}

theorem Same.trans {last : Collection} (first : collection.Same next) (second : next.Same last) :
    collection.Same last :=
  ⟨second.config.trans first.config, second.tag.trans first.tag,
    second.mappedRegion.trans first.mappedRegion⟩

theorem Same.vectorBytes (same : collection.Same next) :
    next.vectorBytes = collection.vectorBytes := by
  rw [Collection.vectorBytes, same.config, Collection.vectorBytes]

theorem Same.components (same : collection.Same next) (slot : RecordSlot) :
    next.components allocator slot = collection.components allocator slot := by
  rw [Collection.components, same.mappedRegion, same.vectorBytes, Collection.components]

theorem vectorBytes_fits (collection : Collection) :
    collection.vectorBytes + MemoryAllocator.alignment ≤ word := by
  have bound := collection.config.dimensionality.toNat_lt
  simp only [vectorBytes, MemoryAllocator.alignment, word]
  omega

section Read

theorem components_length {slot : RecordSlot} {vec : List F32}
    (read : collection.components allocator slot = .ok vec) :
    vec.length = collection.config.dimensionality.toNat := by
  obtain ⟨bytes, block, result⟩ := bind_ok read
  cases result
  apply length_getVector
  cases data : slot.vectorBlock.data with
  | null =>
      simp only [readBlock, data] at block
      cases block
  | arena offset =>
      simp only [readBlock, data] at block
      split at block
      · cases block
        simp [MemoryAllocator.read, vectorBytes]
      · cases block
  | mapped offset =>
      simp only [readBlock, data] at block
      split at block
      · next inside =>
          cases block
          rw [List.length_take, List.length_drop]
          simp only [vectorBytes] at inside ⊢
          omega
      · cases block

theorem components_kept {slot : RecordSlot}
    (capacity : allocator'.capacityBytes = allocator.capacityBytes)
    (bytes : ∀ offset, slot.arenaOffset = some offset → ∀ index < collection.vectorBytes,
      allocator'.arena (offset + index) = allocator.arena (offset + index)) :
    collection.components allocator' slot = collection.components allocator slot := by
  rw [components, components]
  congr 1
  cases data : slot.vectorBlock.data with
  | null => simp only [readBlock, data]
  | mapped offset => simp only [readBlock, data]
  | arena offset =>
      have same : allocator'.read offset collection.vectorBytes =
          allocator.read offset collection.vectorBytes := by
        apply List.map_congr_left
        intro index member
        exact bytes offset (by simp only [RecordSlot.arenaOffset, data]) index
          (List.mem_range.mp member)
      simp only [readBlock, data, capacity, same]

theorem components_unwritten (collection : Collection)
    (capacity : allocator'.capacityBytes = allocator.capacityBytes)
    (arena : allocator'.arena = allocator.arena) (slot : RecordSlot) :
    collection.components allocator' slot = collection.components allocator slot := by
  apply components_kept capacity
  intro _ _ index _
  rw [arena]

theorem Stored.offset_live (stored : collection.Stored allocator loose) {id : RecordId}
    {slot : RecordSlot} (found : collection.records.find? id = some slot) {offset : Nat}
    (isOffset : slot.arenaOffset = some offset) :
    ∃ record, allocator.live.find? offset = some record ∧ record.tag = collection.tag ∧
      record.requestedBytes = collection.vectorBytes := by
  apply stored.holds.live
  apply List.mem_append_left
  exact (mem_offsetsOf collection.records offset).mpr ⟨id, slot, found, isOffset⟩

theorem Stored.readable (stored : collection.Stored allocator loose) (sound : allocator.Sound)
    {id : RecordId} {slot : RecordSlot} (found : collection.records.find? id = some slot) :
    ∃ vec, collection.components allocator slot = .ok vec := by
  rcases stored.backed id slot found with ⟨offset, block⟩ | ⟨offset, block, inside⟩
  · obtain ⟨record, held, _, requested⟩ := stored.offset_live found
      (show slot.arenaOffset = some offset by simp only [RecordSlot.arenaOffset, block])
    have fits := sound.inside held
    rw [requested] at fits
    exact ⟨_, by simp only [components, readBlock, block, if_pos fits]; rfl⟩
  · exact ⟨_, by simp only [components, readBlock, block, if_pos inside]; rfl⟩

theorem Stored.kept_frame (stored : collection.Stored allocator loose) {tag : Nat}
    (frame : Frame tag allocator allocator') (other : collection.tag ≠ tag) {id : RecordId}
    {slot : RecordSlot} (found : collection.records.find? id = some slot) :
    collection.components allocator' slot = collection.components allocator slot := by
  apply components_kept frame.capacity
  intro offset isOffset index within
  obtain ⟨record, held, isTag, requested⟩ := stored.offset_live found isOffset
  rw [← requested] at within
  exact frame.bytes offset record held (by rw [isTag]; exact other) index within

theorem Stored.kept_grows (stored : collection.Stored allocator loose)
    (grows : Grows allocator allocator') {id : RecordId} {slot : RecordSlot}
    (found : collection.records.find? id = some slot) :
    collection.components allocator' slot = collection.components allocator slot := by
  apply components_kept grows.capacity
  intro offset isOffset index within
  obtain ⟨record, held, _, requested⟩ := stored.offset_live found isOffset
  rw [← requested] at within
  exact grows.bytes offset record held index within

theorem Stored.frame (stored : collection.Stored allocator loose) {tag : Nat}
    (frame : Frame tag allocator allocator') (other : collection.tag ≠ tag) :
    collection.Stored allocator' loose :=
  ⟨stored.counted, stored.named, stored.backed, stored.holds.frame frame other⟩

end Read

section View

theorem get_of_slot {id : RecordId} {slot : RecordSlot} {vec : List F32}
    (found : collection.records.find? id = some slot)
    (read : collection.components allocator slot = .ok vec) :
    collection.get allocator id = .ok (.ok ⟨vec, slot.metadata⟩) := by
  simp only [get, found, read]
  rfl

theorem Shows.slot (shows_ : collection.Shows allocator view) {id : RecordId} {slot : RecordSlot}
    (found : collection.records.find? id = some slot) :
    ∃ vec, collection.components allocator slot = .ok vec ∧
      view.find? id = some ⟨vec, slot.metadata⟩ := by
  have answer := shows_ id
  simp only [get, found] at answer
  obtain ⟨vec, read, result⟩ := bind_ok answer
  cases known : view.find? id with
  | none =>
      rw [known] at result
      cases result
  | some record =>
      rw [known] at result
      cases result
      exact ⟨vec, read, rfl⟩

theorem Shows.absent (shows_ : collection.Shows allocator view) {id : RecordId}
    (missing : collection.records.find? id = none) : view.find? id = none := by
  have answer := shows_ id
  simp only [get, missing] at answer
  cases known : view.find? id with
  | none => rfl
  | some record =>
      rw [known] at answer
      cases answer

theorem shows_of (slots : ∀ id slot, collection.records.find? id = some slot →
      ∃ vec, collection.components allocator slot = .ok vec ∧
        view.find? id = some ⟨vec, slot.metadata⟩)
    (absent : ∀ id, collection.records.find? id = none → view.find? id = none) :
    collection.Shows allocator view := by
  intro id
  cases found : collection.records.find? id with
  | none =>
      rw [absent id found]
      simp only [get, found]
      rfl
  | some slot =>
      obtain ⟨vec, read, known⟩ := slots id slot found
      rw [known]
      exact get_of_slot found read

theorem Shows.find_iff (shows_ : collection.Shows allocator view) (id : RecordId) :
    view.find? id = none ↔ collection.records.find? id = none := by
  constructor
  · intro missing
    cases found : collection.records.find? id with
    | none => rfl
    | some slot =>
        obtain ⟨_, _, known⟩ := shows_.slot found
        rw [missing] at known
        cases known
  · intro missing
    exact shows_.absent missing

def viewOf (allocator : MemoryAllocator) (collection : Collection) (slot : RecordSlot) :
    RecordView :=
  ⟨((collection.components allocator slot).toOption).getD [], slot.metadata⟩

theorem viewOf_eq {slot : RecordSlot} {vec : List F32}
    (read : collection.components allocator slot = .ok vec) :
    collection.viewOf allocator slot = ⟨vec, slot.metadata⟩ := by
  rw [viewOf, read]
  rfl

theorem shows_of_readable (readable : ∀ id slot, collection.records.find? id = some slot →
      ∃ vec, collection.components allocator slot = .ok vec) :
    ∃ view : OrderedMap RecordId RecordView, collection.Shows allocator view := by
  refine ⟨collection.records.mapValues (collection.viewOf allocator), shows_of ?_ ?_⟩
  · intro id slot found
    obtain ⟨vec, components⟩ := readable id slot found
    refine ⟨vec, components, ?_⟩
    rw [OrderedMap.find_mapValues, found, Option.map_some, viewOf_eq components]
  · intro id missing
    rw [OrderedMap.find_mapValues, missing, Option.map_none]

theorem Shows.eq (shows_ : collection.Shows allocator view) :
    view = collection.records.mapValues (collection.viewOf allocator) := by
  apply OrderedMap.ext_find
  intro id
  rw [OrderedMap.find_mapValues]
  cases found : collection.records.find? id with
  | none => exact shows_.absent found
  | some slot =>
      obtain ⟨vec, read, known⟩ := shows_.slot found
      rw [known, Option.map_some, viewOf_eq read]

theorem Shows.keys (shows_ : collection.Shows allocator view) :
    collection.records.keys = view.keys := by
  rw [shows_.eq, OrderedMap.keys_mapValues]

theorem Shows.size (shows_ : collection.Shows allocator view) :
    view.size = collection.records.size := by
  rw [← OrderedMap.size_keys, ← OrderedMap.size_keys, shows_.keys]

theorem Stored.shows (stored : collection.Stored allocator loose) (sound : allocator.Sound) :
    ∃ view : OrderedMap RecordId RecordView, collection.Shows allocator view :=
  shows_of_readable (fun _ _ found => stored.readable sound found)

theorem Shows.insert (shows_ : collection.Shows allocator view) (same : collection.Same next)
    {id : RecordId} {slot : RecordSlot} {vec : List F32}
    (records : next.records = collection.records.insert id slot)
    (read : collection.components allocator' slot = .ok vec)
    (kept : ∀ other held, collection.records.find? other = some held →
      collection.components allocator' held = collection.components allocator held) :
    next.Shows allocator' (view.insert id ⟨vec, slot.metadata⟩) := by
  apply shows_of
  · intro other held found
    rw [records, OrderedMap.find_insert] at found
    rw [same.components, OrderedMap.find_insert]
    by_cases here : other = id
    · rw [if_pos here, Option.some.injEq] at found
      rw [if_pos here, ← found]
      exact ⟨vec, read, rfl⟩
    · rw [if_neg here] at found
      rw [if_neg here, kept other held found]
      exact shows_.slot found
  · intro other missing
    rw [records, OrderedMap.find_insert] at missing
    rw [OrderedMap.find_insert]
    by_cases here : other = id
    · rw [if_pos here] at missing
      cases missing
    · rw [if_neg here] at missing
      rw [if_neg here]
      exact shows_.absent missing

theorem Shows.erase (shows_ : collection.Shows allocator view) (same : collection.Same next)
    {id : RecordId} (records : next.records = collection.records.erase id)
    (kept : ∀ other held, collection.records.find? other = some held →
      collection.components allocator' held = collection.components allocator held) :
    next.Shows allocator' (view.erase id) := by
  apply shows_of
  · intro other held found
    rw [records, OrderedMap.find_erase] at found
    rw [same.components, OrderedMap.find_erase]
    by_cases here : other = id
    · rw [if_pos here] at found
      cases found
    · rw [if_neg here] at found
      rw [if_neg here, kept other held found]
      exact shows_.slot found
  · intro other missing
    rw [records, OrderedMap.find_erase] at missing
    rw [OrderedMap.find_erase]
    by_cases here : other = id
    · rw [if_pos here]
    · rw [if_neg here] at missing
      rw [if_neg here]
      exact shows_.absent missing

theorem Shows.kept (shows_ : collection.Shows allocator view) (same : collection.Same next)
    (records : next.records = collection.records)
    (kept : ∀ other held, collection.records.find? other = some held →
      collection.components allocator' held = collection.components allocator held) :
    next.Shows allocator' view := by
  apply shows_of
  · intro id slot found
    rw [records] at found
    rw [same.components, kept id slot found]
    exact shows_.slot found
  · intro id missing
    rw [records] at missing
    exact shows_.absent missing

end View

end Collection

end VectorVault
