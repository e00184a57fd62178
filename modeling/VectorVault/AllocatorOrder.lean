import VectorVault.AllocatorRuns

/-! The order of releases does not matter.

The live table determines the free list and what the statistics report, and a
sequence of releases takes out of it the blocks that are named, in any order. -/

namespace VectorVault.MemoryAllocator

open Tiling

structure SameBooks (first second : MemoryAllocator) : Prop where
  live : first.live = second.live
  freeByOffset : first.freeByOffset = second.freeByOffset
  stats : first.stats = second.stats
  statsOf : ∀ tag, first.statsOf tag = second.statsOf tag

variable {allocator first second : MemoryAllocator} {tag : Nat}

theorem Accounted.stats (accounted : allocator.Accounted) :
    allocator.stats =
      ⟨allocator.live.sumBy (fun entry => entry.2.requestedBytes), allocator.live.size⟩ := by
  rw [MemoryAllocator.stats, accounted.total, accounted.blocks]

theorem Accounted.statsOf (accounted : allocator.Accounted) (tag : Nat) :
    allocator.statsOf tag =
      ⟨allocator.live.sumBy (requestedOf tag), allocator.live.sumBy (blocksOf tag)⟩ := by
  rw [MemoryAllocator.statsOf, accounted.tagBytes tag trivial, accounted.tagBlocks tag trivial]

theorem sameBooks_of_live (tiled : first.Tiled) (accounted : first.Accounted)
    (tiled' : second.Tiled) (accounted' : second.Accounted)
    (capacity : first.capacityBytes = second.capacityBytes) (live : first.live = second.live) :
    SameBooks first second := by
  have footprint : first.footprint = second.footprint := by
    funext offset
    rw [MemoryAllocator.footprint, MemoryAllocator.footprint, live]
  have tiling := tiled.tiling
  rw [capacity, footprint] at tiling
  refine ⟨live, ?_, ?_, ?_⟩
  · apply OrderedMap.ext_find
    exact congrFun (tiling.free_unique tiled'.tiling tiled.coalesced tiled'.coalesced)
  · rw [accounted.stats, accounted'.stats, live]
  · intro tag
    rw [accounted.statsOf, accounted'.statsOf, live]

section Releases

theorem release_table (tiled : allocator.Tiled) (block : Block) (offset : Nat) :
    (allocator.release block).live.find? offset =
      if block.data = .arena offset then none else allocator.live.find? offset := by
  cases address : block.data with
  | null => simp only [release, address, reduceCtorEq, if_false]
  | mapped start => simp only [release, address, reduceCtorEq, if_false]
  | arena start =>
      simp only [Pointer.arena.injEq]
      cases held : allocator.live.find? start with
      | some record =>
          have erased := (@release_live allocator start block.size record tiled held).1
          rw [← address] at erased
          rw [erased, OrderedMap.find_erase]
          simp only [eq_comm]
      | none =>
          have kept : (allocator.release block).live = allocator.live := by
            simp only [release, address, held]
            split <;> rfl
          rw [kept]
          split
          · next same => rw [← same, held]
          · rfl

theorem releases_table (blocks : List Block) (tiled : allocator.Tiled)
    (accounted : allocator.Accounted) :
    (blocks.foldl release allocator).Tiled ∧ (blocks.foldl release allocator).Accounted ∧
      (blocks.foldl release allocator).capacityBytes = allocator.capacityBytes ∧
      ∀ offset, (blocks.foldl release allocator).live.find? offset =
        if ∃ block ∈ blocks, block.data = .arena offset then none
        else allocator.live.find? offset := by
  induction blocks generalizing allocator with
  | nil =>
      refine ⟨tiled, accounted, rfl, ?_⟩
      intro offset
      rw [if_neg (by simp)]
      rfl
  | cons block rest ih =>
      obtain ⟨tiledAfter, accountedAfter, capacity, table⟩ :=
        ih (release_tiled tiled block) (release_accounted tiled accounted block)
      refine ⟨tiledAfter, accountedAfter, capacity.trans (release_capacity allocator block), ?_⟩
      intro offset
      rw [List.foldl_cons, table, release_table tiled]
      by_cases here : block.data = .arena offset
      · rw [if_pos here, ite_self, if_pos ⟨block, List.mem_cons_self, here⟩]
      · rw [if_neg here]
        apply if_congr _ rfl rfl
        simp only [List.mem_cons, exists_eq_or_imp, here, false_or]

theorem releases_perm {blocks order : List Block} (permuted : order.Perm blocks)
    (tiled : allocator.Tiled) (accounted : allocator.Accounted) :
    SameBooks (order.foldl release allocator) (blocks.foldl release allocator) := by
  obtain ⟨tiled', accounted', capacity', table'⟩ := releases_table order tiled accounted
  obtain ⟨tiledAfter, accountedAfter, capacity, table⟩ := releases_table blocks tiled accounted
  apply sameBooks_of_live tiled' accounted' tiledAfter accountedAfter
    (capacity'.trans capacity.symm)
  apply OrderedMap.ext_find
  intro offset
  rw [table', table]
  simp only [permuted.mem_iff]

end Releases

section ReleaseAll

theorem releaseAllIn_capacity (allocator : MemoryAllocator) (order : List (Nat × AllocRecord))
    (tag : Nat) : (allocator.releaseAllIn order tag).capacityBytes = allocator.capacityBytes := by
  have walk : ∀ walked : MemoryAllocator,
      (order.foldl (releaseVisited tag) walked).capacityBytes = walked.capacityBytes := by
    induction order with
    | nil => exact fun _ => rfl
    | cons entry rest ih =>
        intro walked
        exact (ih _).trans (releaseVisited_capacity tag walked entry)
  exact walk allocator

theorem releaseAllIn_perm (tiled : allocator.Tiled) (accounted : allocator.Accounted)
    {order : List (Nat × AllocRecord)} (permuted : order.Perm allocator.live.entries) (tag : Nat) :
    SameBooks (allocator.releaseAllIn order tag) (allocator.releaseAll tag) := by
  obtain ⟨tiled', accounted', _, _, table'⟩ := releaseAllIn_spec tiled accounted permuted tag
  obtain ⟨tiledAfter, accountedAfter, _, _, table⟩ := releaseAll_spec tiled accounted tag
  apply sameBooks_of_live tiled' accounted' tiledAfter accountedAfter
  · rw [releaseAllIn_capacity, releaseAll_capacity]
  · apply OrderedMap.ext_find
    intro offset
    rw [table', table]

def BlocksOf (allocator : MemoryAllocator) (tag : Nat) (blocks : List Block) : Prop :=
  ∀ offset, (∃ block ∈ blocks, block.data = .arena offset) ↔
    ∃ record, allocator.live.find? offset = some record ∧ record.tag = tag

theorem releaseAll_one_by_one (tiled : allocator.Tiled) (accounted : allocator.Accounted)
    {blocks : List Block} (ofTag : allocator.BlocksOf tag blocks) :
    SameBooks (blocks.foldl release allocator) (allocator.releaseAll tag) := by
  obtain ⟨tiled', accounted', capacity', table'⟩ := releases_table blocks tiled accounted
  obtain ⟨tiledAfter, accountedAfter, _, _, table⟩ := releaseAll_spec tiled accounted tag
  apply sameBooks_of_live tiled' accounted' tiledAfter accountedAfter
  · rw [capacity', releaseAll_capacity]
  · apply OrderedMap.ext_find
    intro offset
    rw [table', table]
    have named := ofTag offset
    cases held : allocator.live.find? offset with
    | none =>
        rw [ite_self]
        rfl
    | some record =>
        rw [held] at named
        simp only [Option.some.injEq, exists_eq_left'] at named
        by_cases own : record.tag = tag
        · rw [if_pos (named.mpr own), Option.filter_some, if_neg (by simp [own])]
        · rw [if_neg (fun released => own (named.mp released)), Option.filter_some,
            if_pos (by simp [own])]

theorem walk_counters (tag : Nat) (order : List (Nat × AllocRecord)) (walked : MemoryAllocator) :
    (order.foldl (releaseVisited tag) walked).tagBytes = walked.tagBytes ∧
      (order.foldl (releaseVisited tag) walked).tagBlocks = walked.tagBlocks := by
  induction order generalizing walked with
  | nil => exact ⟨rfl, rfl⟩
  | cons entry rest ih =>
      have visited : (releaseVisited tag walked entry).tagBytes = walked.tagBytes ∧
          (releaseVisited tag walked entry).tagBlocks = walked.tagBlocks := by
        unfold releaseVisited
        split
        · exact ⟨rfl, rfl⟩
        · exact ⟨rfl, rfl⟩
      obtain ⟨bytes, blocks⟩ := ih (releaseVisited tag walked entry)
      exact ⟨bytes.trans visited.1, blocks.trans visited.2⟩

theorem releaseAll_statsOf (allocator : MemoryAllocator) {other : Nat} (distinct : other ≠ tag) :
    (allocator.releaseAll tag).statsOf other = allocator.statsOf other := by
  obtain ⟨bytes, blocks⟩ := walk_counters tag allocator.live.entries allocator
  simp only [statsOf, releaseAll, OrderedMap.find_erase_of_ne _ distinct, bytes, blocks]

theorem releaseAll_live (tiled : allocator.Tiled) (accounted : allocator.Accounted)
    {record : AllocRecord} (distinct : record.tag ≠ tag) (offset : Nat) :
    (allocator.releaseAll tag).live.find? offset = some record ↔
      allocator.live.find? offset = some record := by
  rw [(releaseAll_spec tiled accounted tag).2.2.2.2, Option.filter_eq_some_iff, decide_eq_true_eq]
  exact and_iff_left distinct

end ReleaseAll

section RoundTrip

variable {allocated : MemoryAllocator} {bytes : Nat} {block : Block}

theorem allocate_release (tiled : allocator.Tiled) (accounted : allocator.Accounted)
    (fits : bytes + alignment ≤ word)
    (granted : allocator.allocate bytes tag = .ok (block, allocated)) :
    SameBooks (allocated.release block) allocator := by
  have tiledNext := allocate_tiled tiled granted
  have accountedNext := allocate_accounted tiled accounted fits granted
  obtain ⟨offset, isBlock, absent, live, _, capacity⟩ := allocate_live tiled granted
  apply sameBooks_of_live (release_tiled tiledNext block)
    (release_accounted tiledNext accountedNext block) tiled accounted
  · rw [release_capacity, capacity]
  · apply OrderedMap.ext_find
    intro other
    rw [release_table tiledNext, isBlock, live, OrderedMap.find_insert]
    simp only [Pointer.arena.injEq]
    by_cases here : offset = other
    · rw [if_pos here, ← here, absent]
    · rw [if_neg here, if_neg (Ne.symm here)]

end RoundTrip

/-- How the releases of a state relate to each other and to its allocations. -/
structure ReleaseLaws (allocator : MemoryAllocator) : Prop where
  order : ∀ blocks order : List Block, order.Perm blocks →
    SameBooks (order.foldl release allocator) (blocks.foldl release allocator)
  walk : ∀ (tag : Nat) (order : List (Nat × AllocRecord)), order.Perm allocator.live.entries →
    SameBooks (allocator.releaseAllIn order tag) (allocator.releaseAll tag)
  oneByOne : ∀ (tag : Nat) (blocks : List Block), allocator.BlocksOf tag blocks →
    SameBooks (blocks.foldl release allocator) (allocator.releaseAll tag)
  others : ∀ tag other, other ≠ tag →
    (allocator.releaseAll tag).statsOf other = allocator.statsOf other ∧
      ∀ offset record, record.tag = other →
        ((allocator.releaseAll tag).live.find? offset = some record ↔
          allocator.live.find? offset = some record)
  roundTrip : ∀ (bytes : UInt64) (tag : Nat) (block : Block) (allocated : MemoryAllocator),
    Unwrapped bytes → allocator.allocate bytes.toNat tag = .ok (block, allocated) →
      SameBooks (allocated.release block) allocator

/-- In every state that requests of sizes that do not wrap lead to. -/
theorem run_releaseLaws (capacity : UInt64) (garbage : Nat → UInt8) {requests : List Request}
    (unwrapped : ∀ request ∈ requests, request.Unwrapped) :
    ReleaseLaws (requests.foldl serve (new capacity garbage)) := by
  obtain ⟨tiled, accounted⟩ := run_accounted capacity garbage unwrapped
  constructor
  · intro blocks order permuted
    exact releases_perm permuted tiled accounted
  · intro tag order permuted
    exact releaseAllIn_perm tiled accounted permuted tag
  · intro tag blocks ofTag
    exact releaseAll_one_by_one tiled accounted ofTag
  · intro tag other distinct
    refine ⟨releaseAll_statsOf _ distinct, ?_⟩
    intro offset record own
    exact releaseAll_live tiled accounted (own ▸ distinct) offset
  · intro bytes tag block allocated fits granted
    exact allocate_release tiled accounted fits granted

theorem run_releaseLaws_of_three_blocks :
    ReleaseLaws ([.allocate 64 1, .allocate 0 2, .allocate 100 1].foldl serve
      (new 512 (fun _ => 0))) :=
  @run_releaseLaws 512 (fun _ => 0) [.allocate 64 1, .allocate 0 2, .allocate 100 1] (by decide)

end VectorVault.MemoryAllocator
