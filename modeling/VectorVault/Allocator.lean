import VectorVault.Types
import VectorVault.Library.Tiling

/-! The arena allocator that backs every collection's vectors.

The arena is a byte array addressed from its base; blocks are handed out by
address-ordered first fit and released spans coalesce. `ignoredReleases` is a
ghost counter of arena addresses released while no live block starts there. -/

namespace VectorVault

structure AllocRecord where
  offset : Nat
  roundedBytes : Nat
  requestedBytes : Nat
  tag : Nat
  deriving DecidableEq

structure AllocStats where
  totalAllocatedBytes : Nat
  liveBlockCount : Nat
  deriving DecidableEq, Repr

structure MemoryAllocator where
  arena : Nat → UInt8
  capacityBytes : Nat
  freeByOffset : OrderedMap Nat Nat
  live : OrderedMap Nat AllocRecord
  totalAllocatedBytes : Nat
  liveBlockCount : Nat
  tagBytes : OrderedMap Nat Nat
  tagBlocks : OrderedMap Nat Nat
  ignoredReleases : Nat

namespace MemoryAllocator

def alignment : Nat := 64

def wordAdd (first second : Nat) : Nat := (first + second) % word
def wordSub (first second : Nat) : Nat := (first + word - second) % word

/-- `(bytes + mask) & ~mask` on 64-bit words; clearing the low six bits is
rounding down to a multiple of the alignment. -/
def roundUp (bytes : Nat) : Nat :=
  wordAdd bytes (alignment - 1) / alignment * alignment

/-- The constructor. `garbage` is what the reserved memory holds at first. -/
def new (capacityBytes : UInt64) (garbage : Nat → UInt8) : MemoryAllocator :=
  let capacity := capacityBytes.toNat - capacityBytes.toNat % alignment
  { arena := garbage
    capacityBytes := capacity
    freeByOffset := if capacity > 0 then OrderedMap.empty.insert 0 capacity else OrderedMap.empty
    live := OrderedMap.empty
    totalAllocatedBytes := 0
    liveBlockCount := 0
    tagBytes := OrderedMap.empty
    tagBlocks := OrderedMap.empty
    ignoredReleases := 0 }

/-- `map[tag] += amount`: an absent entry starts from zero. -/
def credit (counters : OrderedMap Nat Nat) (tag amount : Nat) : OrderedMap Nat Nat :=
  counters.insert tag (wordAdd ((counters.find? tag).getD 0) amount)

/-- Subtracts from a tag's entry when it has one and drops the entry at zero. -/
def debit (counters : OrderedMap Nat Nat) (tag amount : Nat) : OrderedMap Nat Nat :=
  match counters.find? tag with
  | none => counters
  | some value =>
      if wordSub value amount = 0 then counters.erase tag
      else counters.insert tag (wordSub value amount)

/-- The footprint of a request: a zero-byte one still takes one chunk. -/
def needed (bytes : Nat) : Nat := if roundUp bytes = 0 then alignment else roundUp bytes

def allocate (allocator : MemoryAllocator) (bytes tag : Nat) :
    Result (Block × MemoryAllocator) :=
  match allocator.freeByOffset.entries.find? (fun span => decide (span.2 ≥ needed bytes)) with
  | none =>
      .error ⟨.allocationFailure,
        text "memory allocator exhausted: requested " ++ decimal bytes ++ text " bytes (" ++
          decimal (needed bytes) ++ text " after alignment)"⟩
  | some (offset, spanSize) =>
      let erased := allocator.freeByOffset.erase offset
      .ok (⟨.arena offset, bytes⟩,
        { allocator with
          freeByOffset :=
            if spanSize > needed bytes
            then erased.emplace (offset + needed bytes) (spanSize - needed bytes)
            else erased
          live := allocator.live.emplace offset ⟨offset, needed bytes, bytes, tag⟩
          totalAllocatedBytes := wordAdd allocator.totalAllocatedBytes bytes
          liveBlockCount := wordAdd allocator.liveBlockCount 1
          tagBytes := credit allocator.tagBytes tag bytes
          tagBlocks := credit allocator.tagBlocks tag 1 })

/-- Joins the span at `offset` with the one that follows it, if they touch. -/
def coalesceNext (free : OrderedMap Nat Nat) (offset size : Nat) : OrderedMap Nat Nat × Nat :=
  match free.after? offset with
  | some (next, nextSize) =>
      if offset + size = next then ((free.insert offset (size + nextSize)).erase next, size + nextSize)
      else (free, size)
  | none => (free, size)

/-- Joins the span at `offset` with the one that precedes it, if they touch. -/
def coalescePrevious (free : OrderedMap Nat Nat) (offset size : Nat) : OrderedMap Nat Nat :=
  match free.before? offset with
  | some (previous, previousSize) =>
      if previous + previousSize = offset
      then (free.insert previous (previousSize + size)).erase offset
      else free
  | none => free

def freeSpan (free : OrderedMap Nat Nat) (offset size : Nat) : OrderedMap Nat Nat :=
  if size = 0 then free
  else
    let (withNext, grown) := coalesceNext (free.emplace offset size) offset size
    coalescePrevious withNext offset grown

def release (allocator : MemoryAllocator) (block : Block) : MemoryAllocator :=
  match block.data with
  | .null => allocator
  | .mapped _ => allocator
  | .arena offset =>
      if offset ≥ allocator.capacityBytes then allocator
      else
        match allocator.live.find? offset with
        | none => { allocator with ignoredReleases := allocator.ignoredReleases + 1 }
        | some record =>
            { allocator with
              totalAllocatedBytes := wordSub allocator.totalAllocatedBytes record.requestedBytes
              liveBlockCount := wordSub allocator.liveBlockCount 1
              tagBytes := debit allocator.tagBytes record.tag record.requestedBytes
              tagBlocks := debit allocator.tagBlocks record.tag 1
              live := allocator.live.erase offset
              freeByOffset := freeSpan allocator.freeByOffset record.offset record.roundedBytes }

def releaseVisited (tag : Nat) (allocator : MemoryAllocator) (entry : Nat × AllocRecord) :
    MemoryAllocator :=
  if entry.2.tag = tag then
    { allocator with
      totalAllocatedBytes := wordSub allocator.totalAllocatedBytes entry.2.requestedBytes
      liveBlockCount := wordSub allocator.liveBlockCount 1
      freeByOffset := freeSpan allocator.freeByOffset entry.2.offset entry.2.roundedBytes
      live := allocator.live.erase entry.1 }
  else allocator

def releaseAll (allocator : MemoryAllocator) (tag : Nat) : MemoryAllocator :=
  let walked := allocator.live.entries.foldl (releaseVisited tag) allocator
  { walked with
    tagBytes := walked.tagBytes.erase tag
    tagBlocks := walked.tagBlocks.erase tag }

def stats (allocator : MemoryAllocator) : AllocStats :=
  ⟨allocator.totalAllocatedBytes, allocator.liveBlockCount⟩

def statsOf (allocator : MemoryAllocator) (tag : Nat) : AllocStats :=
  ⟨(allocator.tagBytes.find? tag).getD 0, (allocator.tagBlocks.find? tag).getD 0⟩

def store (allocator : MemoryAllocator) (offset : Nat) (bytes : Bytes) : MemoryAllocator :=
  { allocator with
    arena := fun address =>
      if offset ≤ address then bytes.getD (address - offset) (allocator.arena address)
      else allocator.arena address }

def read (allocator : MemoryAllocator) (offset length : Nat) : Bytes :=
  (List.range length).map (fun index => allocator.arena (offset + index))

end MemoryAllocator

end VectorVault
