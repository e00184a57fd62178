import VectorVault.AllocatorOwnership

/-! The live table determines the rest of the allocator's bookkeeping.

The free spans are the maximal gaps between the live blocks, the totals are
sums over the live table, and a tag has counters only while it has blocks. So
an operation that brings the live table back brings everything back. -/

namespace VectorVault.MemoryAllocator

open Tiling

section Pruned

def Positive (counters : OrderedMap Nat Nat) : Prop :=
  ∀ tag value, counters.find? tag = some value → value ≠ 0

structure Pruned (allocator : MemoryAllocator) : Prop where
  tagBytes : Positive allocator.tagBytes
  tagBlocks : Positive allocator.tagBlocks

theorem new_pruned (capacity : UInt64) (garbage : Nat → UInt8) : (new capacity garbage).Pruned :=
  ⟨fun _ _ found => by (cases found), fun _ _ found => by (cases found)⟩

variable {counters : OrderedMap Nat Nat} {tag amount : Nat}

theorem credit_positive (positive : Positive counters)
    (grown : ((credit counters tag amount).find? tag).getD 0 ≠ 0) :
    Positive (credit counters tag amount) := by
  intro other value found
  by_cases here : other = tag
  · rw [here] at found
    rw [found] at grown
    exact grown
  · rw [credit, OrderedMap.find_insert_of_ne _ _ here] at found
    exact positive other value found

theorem debit_positive (positive : Positive counters) (tag amount : Nat) :
    Positive (debit counters tag amount) := by
  unfold debit
  split
  · exact positive
  · intro other value found
    split at found
    · rw [OrderedMap.find_erase] at found
      split at found
      · cases found
      · exact positive other value found
    · next rest =>
        rw [OrderedMap.find_insert] at found
        split at found
        · rw [← Option.some.inj found]
          exact rest
        · exact positive other value found

theorem erase_positive (positive : Positive counters) (tag : Nat) :
    Positive (counters.erase tag) := by
  intro other value found
  rw [OrderedMap.find_erase] at found
  split at found
  · cases found
  · exact positive other value found

variable {allocator allocated : MemoryAllocator}

theorem allocate_pruned {bytes : Nat} {block : Block} (sound : allocator.Sound)
    (pruned : allocator.Pruned) (some_ : 0 < bytes) (fits : bytes + alignment ≤ word)
    (granted : allocator.allocate bytes tag = .ok (block, allocated)) : allocated.Pruned := by
  have accounted := allocate_accounted sound.tiled sound.accounted fits granted
  obtain ⟨offset, _, absent, live, _, _⟩ := allocate_live sound.tiled granted
  obtain ⟨_, _, _, _, _, state⟩ := allocate_ok granted
  have ofTag : ∀ measure : Nat × AllocRecord → Nat,
      measure (offset, ⟨offset, needed bytes, bytes, tag⟩) ≤ allocated.live.sumBy measure := by
    intro measure
    rw [live, OrderedMap.sumBy_insert_of_absent _ _ _ _ absent]
    exact Nat.le_add_right _ _
  constructor
  · have credited : allocated.tagBytes = credit allocator.tagBytes tag bytes := by rw [state]
    have total := accounted.tagBytes tag trivial
    have atLeast := ofTag (requestedOf tag)
    simp only [requestedOf, if_true] at atLeast
    rw [credited] at total ⊢
    apply credit_positive pruned.tagBytes
    omega
  · have credited : allocated.tagBlocks = credit allocator.tagBlocks tag 1 := by rw [state]
    have total := accounted.tagBlocks tag trivial
    have atLeast := ofTag (blocksOf tag)
    simp only [blocksOf, if_true] at atLeast
    rw [credited] at total ⊢
    apply credit_positive pruned.tagBlocks
    omega

theorem release_pruned (pruned : allocator.Pruned) (block : Block) :
    (allocator.release block).Pruned := by
  unfold release
  split
  · exact pruned
  · exact pruned
  · split
    · exact pruned
    · split
      · exact ⟨pruned.tagBytes, pruned.tagBlocks⟩
      · exact ⟨debit_positive pruned.tagBytes _ _, debit_positive pruned.tagBlocks _ _⟩

theorem releaseAll_pruned (pruned : allocator.Pruned) (tag : Nat) :
    (allocator.releaseAll tag).Pruned := by
  have walk : ∀ (entries : List (Nat × AllocRecord)) (walked : MemoryAllocator),
      walked.Pruned → (entries.foldl (releaseVisited tag) walked).Pruned := by
    intro entries
    induction entries with
    | nil => exact fun _ kept => kept
    | cons entry rest ih =>
        intro walked kept
        apply ih
        unfold releaseVisited
        split
        · exact ⟨kept.tagBytes, kept.tagBlocks⟩
        · exact kept
  have walked := walk allocator.live.entries allocator pruned
  exact ⟨erase_positive walked.tagBytes tag, erase_positive walked.tagBlocks tag⟩

end Pruned

section Restored

/-- Everything the allocator keeps is as it was, the bytes of the live blocks too. -/
structure Restored (before after : MemoryAllocator) : Prop where
  capacityBytes : after.capacityBytes = before.capacityBytes
  live : after.live = before.live
  freeByOffset : after.freeByOffset = before.freeByOffset
  totalAllocatedBytes : after.totalAllocatedBytes = before.totalAllocatedBytes
  liveBlockCount : after.liveBlockCount = before.liveBlockCount
  tagBytes : after.tagBytes = before.tagBytes
  tagBlocks : after.tagBlocks = before.tagBlocks
  bytes : ∀ offset record, before.live.find? offset = some record →
    ∀ index < record.requestedBytes, after.arena (offset + index) = before.arena (offset + index)

theorem Restored.refl (allocator : MemoryAllocator) : Restored allocator allocator :=
  ⟨rfl, rfl, rfl, rfl, rfl, rfl, rfl, fun _ _ _ _ _ => rfl⟩

theorem counters_unique {first second : OrderedMap Nat Nat} (positive : Positive first)
    (positive' : Positive second)
    (same : ∀ tag, (first.find? tag).getD 0 = (second.find? tag).getD 0) : first = second := by
  apply OrderedMap.ext_find
  intro tag
  have count := same tag
  cases found : first.find? tag with
  | none =>
      cases found' : second.find? tag with
      | none => rfl
      | some value =>
          rw [found, found'] at count
          exact absurd count.symm (positive' tag value found')
  | some value =>
      cases found' : second.find? tag with
      | none =>
          rw [found, found'] at count
          exact absurd count (positive tag value found)
      | some value' =>
          rw [found, found'] at count
          exact congrArg some count

variable {before after : MemoryAllocator}

theorem restored_of_live (sound : before.Sound) (pruned : before.Pruned) (soundAfter : after.Sound)
    (prunedAfter : after.Pruned) (grows : Grows before after) (live : after.live = before.live) :
    Restored before after := by
  have footprint : after.footprint = before.footprint := by
    funext offset
    rw [MemoryAllocator.footprint, MemoryAllocator.footprint, live]
  have tiling := soundAfter.tiled.tiling
  rw [grows.capacity, footprint] at tiling
  have free := tiling.free_unique sound.tiled.tiling soundAfter.tiled.coalesced
    sound.tiled.coalesced
  refine ⟨grows.capacity, live, ?_, ?_, ?_, ?_, ?_, grows.bytes⟩
  · apply OrderedMap.ext_find
    exact congrFun free
  · calc after.totalAllocatedBytes
        = after.live.sumBy (fun entry => entry.2.requestedBytes) := soundAfter.accounted.total
      _ = before.live.sumBy (fun entry => entry.2.requestedBytes) := by rw [live]
      _ = before.totalAllocatedBytes := sound.accounted.total.symm
  · calc after.liveBlockCount = after.live.size := soundAfter.accounted.blocks
      _ = before.live.size := by rw [live]
      _ = before.liveBlockCount := sound.accounted.blocks.symm
  · apply counters_unique prunedAfter.tagBytes pruned.tagBytes
    intro tag
    calc (after.tagBytes.find? tag).getD 0
        = after.live.sumBy (requestedOf tag) := soundAfter.accounted.tagBytes tag trivial
      _ = before.live.sumBy (requestedOf tag) := by rw [live]
      _ = (before.tagBytes.find? tag).getD 0 := (sound.accounted.tagBytes tag trivial).symm
  · apply counters_unique prunedAfter.tagBlocks pruned.tagBlocks
    intro tag
    calc (after.tagBlocks.find? tag).getD 0
        = after.live.sumBy (blocksOf tag) := soundAfter.accounted.tagBlocks tag trivial
      _ = before.live.sumBy (blocksOf tag) := by rw [live]
      _ = (before.tagBlocks.find? tag).getD 0 := (sound.accounted.tagBlocks tag trivial).symm

theorem releases_live (size : Nat) (given : List Nat) {allocator : MemoryAllocator}
    (sound : allocator.Sound) (distinct : given.Nodup)
    (live : ∀ offset ∈ given, ∃ record, allocator.live.find? offset = some record) :
    let final := (given.map (fun offset => (⟨.arena offset, size⟩ : Block))).foldl release allocator
    final.Sound ∧ final.arena = allocator.arena ∧
      ∀ other, final.live.find? other =
        if other ∈ given then none else allocator.live.find? other := by
  induction given generalizing allocator with
  | nil => exact ⟨sound, rfl, fun _ => rfl⟩
  | cons offset rest ih =>
      obtain ⟨record, held⟩ := live offset List.mem_cons_self
      have step := @release_live allocator offset size record sound.tiled held
      have table := fun other => OrderedMap.find_erase allocator.live offset other
      rw [← step.1] at table
      have soundNext : (allocator.release ⟨.arena offset, size⟩).Sound :=
        ⟨step.2.2.2.1, step.2.2.2.2 sound.accounted, step.2.2.1.trans sound.released⟩
      have fresh := (List.nodup_cons.mp distinct).1
      have later := ih soundNext (List.nodup_cons.mp distinct).2 (by
        intro other member
        rw [table other, if_neg]
        · exact live other (List.mem_cons_of_mem offset member)
        · intro same
          exact fresh (same ▸ member))
      refine ⟨later.1, later.2.1.trans step.2.1, ?_⟩
      intro other
      rw [List.map_cons, List.foldl_cons, later.2.2 other, table other]
      by_cases member : other ∈ rest
      · rw [if_pos member, if_pos (List.mem_cons_of_mem offset member)]
      · by_cases here : other = offset
        · rw [if_neg member, if_pos here, if_pos (here ▸ List.mem_cons_self)]
        · have neither : other ∉ offset :: rest := by
            intro either
            exact (List.mem_cons.mp either).elim here member
          rw [if_neg member, if_neg here, if_neg neither]

end Restored

end VectorVault.MemoryAllocator
