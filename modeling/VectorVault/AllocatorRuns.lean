import VectorVault.AllocatorOwnership

/-! Runs of the allocator over any requests.

A request may ask for any size and release any block: a live one, one released
before, an address inside a block, a foreign one or null. The arena stays
partitioned by the free spans and the footprints of the live blocks. -/

namespace VectorVault.MemoryAllocator

open Tiling

inductive Request where
  | allocate (bytes : UInt64) (tag : Nat)
  | release (block : Block)
  | releaseAll (tag : Nat)

def serve (allocator : MemoryAllocator) (request : Request) : MemoryAllocator :=
  match request with
  | .allocate bytes tag =>
      match allocator.allocate bytes.toNat tag with
      | .error _ => allocator
      | .ok (_, granted) => granted
  | .release block => allocator.release block
  | .releaseAll tag => allocator.releaseAll tag

/-- The free spans and the footprints of the live blocks, by offset and length. -/
def intervals (allocator : MemoryAllocator) : List (Nat × Nat) :=
  allocator.freeByOffset.entries ++
    allocator.live.entries.map (fun entry => (entry.2.offset, entry.2.roundedBytes))

structure Partitioned (allocator : MemoryAllocator) : Prop where
  aligned : ∀ span ∈ allocator.intervals, alignment ∣ span.1 ∧ alignment ∣ span.2
  positive : ∀ span ∈ allocator.intervals, 0 < span.2
  disjoint : allocator.intervals.Pairwise
    (fun first second => first.1 + first.2 ≤ second.1 ∨ second.1 + second.2 ≤ first.1)
  union : ∀ point, point < allocator.capacityBytes ↔
    ∃ span ∈ allocator.intervals, span.1 ≤ point ∧ point < span.1 + span.2
  separate : ∀ first ∈ allocator.freeByOffset.entries, ∀ second ∈ allocator.freeByOffset.entries,
    first.1 + first.2 ≠ second.1

variable {allocator : MemoryAllocator}

theorem Tiled.live_span (tiled : allocator.Tiled) {entry : Nat × AllocRecord}
    (member : entry ∈ allocator.live.entries) :
    entry.2.offset = entry.1 ∧ allocator.footprint entry.1 = some entry.2.roundedBytes := by
  have held := (OrderedMap.find_eq_some_iff _ _ _).mpr member
  exact ⟨tiled.offsets _ _ held, (footprint_eq_some _ _ _).mpr ⟨_, held, rfl⟩⟩

theorem Tiled.mem_intervals (tiled : allocator.Tiled) (offset length : Nat) :
    (offset, length) ∈ allocator.intervals ↔
      allocator.freeByOffset.find? offset = some length ∨
        allocator.footprint offset = some length := by
  rw [intervals, List.mem_append, ← OrderedMap.find_eq_some_iff]
  apply or_congr_right
  constructor
  · intro member
    obtain ⟨entry, inside, same⟩ := List.mem_map.mp member
    have span := tiled.live_span inside
    rw [Prod.mk.injEq, span.1] at same
    rw [← same.1, ← same.2]
    exact span.2
  · intro span
    obtain ⟨record, held, rounded⟩ := (footprint_eq_some _ _ _).mp span
    apply List.mem_map.mpr
    exact ⟨(offset, record), (OrderedMap.find_eq_some_iff _ _ _).mp held,
      Prod.ext (tiled.offsets offset record held) rounded⟩

theorem Tiled.partitioned (tiled : allocator.Tiled) : allocator.Partitioned := by
  have free : ∀ span ∈ allocator.freeByOffset.entries,
      allocator.freeByOffset.find? span.1 = some span.2 :=
    fun span member => (OrderedMap.find_eq_some_iff _ _ _).mpr member
  refine ⟨?_, ?_, ?_, ?_, ?_⟩
  · intro span member
    rcases (tiled.mem_intervals span.1 span.2).mp member with held | held
    · exact tiled.freeAligned _ _ held
    · exact tiled.liveAligned _ _ held
  · intro span member
    rcases (tiled.mem_intervals span.1 span.2).mp member with held | held
    · exact tiled.tiling.freePositive _ _ held
    · exact tiled.tiling.livePositive _ _ held
  · apply List.pairwise_append.mpr
    refine ⟨?_, ?_, ?_⟩
    · apply allocator.freeByOffset.sorted.imp_of_mem
      intro first second memberFirst memberSecond less
      left
      exact tiled.tiling.freeApart _ _ _ _ (free first memberFirst) (free second memberSecond) less
    · rw [List.pairwise_map]
      apply allocator.live.sorted.imp_of_mem
      intro first second memberFirst memberSecond less
      have one := tiled.live_span memberFirst
      have other := tiled.live_span memberSecond
      left
      rw [one.1, other.1]
      exact tiled.tiling.liveApart _ _ _ _ one.2 other.2 less
    · intro span memberFree interval memberLive
      obtain ⟨entry, inside, same⟩ := List.mem_map.mp memberLive
      have block := tiled.live_span inside
      rw [← same, block.1]
      exact tiled.tiling.crossApart _ _ _ _ (free span memberFree) block.2
  · intro point
    rw [tiled.tiling.covered point]
    constructor
    · intro covered
      rcases covered with ⟨offset, length, span, inside⟩ | ⟨offset, length, span, inside⟩
      · exact ⟨(offset, length), (tiled.mem_intervals _ _).mpr (Or.inl span), inside⟩
      · exact ⟨(offset, length), (tiled.mem_intervals _ _).mpr (Or.inr span), inside⟩
    · intro covered
      obtain ⟨span, member, inside⟩ := covered
      rcases (tiled.mem_intervals span.1 span.2).mp member with held | held
      · exact Or.inl ⟨span.1, span.2, held, inside⟩
      · exact Or.inr ⟨span.1, span.2, held, inside⟩
  · intro first memberFirst second memberSecond touch
    have gap := tiled.coalesced first.1 first.2 (free first memberFirst)
    rw [touch, free second memberSecond] at gap
    cases gap

theorem release_tiled (tiled : allocator.Tiled) (block : Block) :
    (allocator.release block).Tiled := by
  cases address : block.data with
  | null => simp only [release, address, tiled]
  | mapped offset => simp only [release, address, tiled]
  | arena offset =>
      cases held : allocator.live.find? offset with
      | some record =>
          have freed := (@release_live allocator offset block.size record tiled held).2.2.2.1
          rw [← address] at freed
          exact freed
      | none =>
          -- Either the address is beyond the arena or no block starts there.
          simp only [release, address, held]
          split
          · exact tiled
          · exact ⟨tiled.tiling, tiled.coalesced, tiled.freeAligned, tiled.liveAligned,
              tiled.capacityAligned, tiled.capacityBound, tiled.offsets⟩

theorem releaseVisited_tiled {tag : Nat} {entry : Nat × AllocRecord} (tiled : allocator.Tiled)
    (held : allocator.live.find? entry.1 = some entry.2) :
    (releaseVisited tag allocator entry).Tiled := by
  unfold releaseVisited
  split
  · exact freed_tiled tiled held rfl rfl rfl
  · exact tiled

theorem releaseAll_tiled (tiled : allocator.Tiled) (tag : Nat) :
    (allocator.releaseAll tag).Tiled := by
  have walked := (@walk_spec tag Tiled (fun _ _ kept held => releaseVisited_tiled kept held)
    allocator.live.entries allocator tiled allocator.live.nodup_keys
    (fun entry member => (OrderedMap.find_eq_some_iff _ _ _).mpr member)).1
  exact ⟨walked.tiling, walked.coalesced, walked.freeAligned, walked.liveAligned,
    walked.capacityAligned, walked.capacityBound, walked.offsets⟩

theorem serve_tiled (tiled : allocator.Tiled) (request : Request) :
    (allocator.serve request).Tiled := by
  cases request with
  | release block => exact release_tiled tiled block
  | releaseAll tag => exact releaseAll_tiled tiled tag
  | allocate bytes tag =>
      cases granted : allocator.allocate bytes.toNat tag with
      | error error =>
          simp only [serve, granted]
          exact tiled
      | ok result =>
          simp only [serve, granted]
          exact allocate_tiled tiled granted

theorem serves_tiled (tiled : allocator.Tiled) (requests : List Request) :
    (requests.foldl serve allocator).Tiled := by
  induction requests generalizing allocator with
  | nil => exact tiled
  | cons request rest ih => exact ih (serve_tiled tiled request)

section Accounted

def Unwrapped (bytes : UInt64) : Prop := bytes.toNat + (alignment - 1) < word

instance (bytes : UInt64) : Decidable (Unwrapped bytes) :=
  inferInstanceAs (Decidable (bytes.toNat + (alignment - 1) < word))

def Request.Unwrapped : Request → Prop
  | .allocate bytes _ => MemoryAllocator.Unwrapped bytes
  | .release _ => True
  | .releaseAll _ => True

instance (request : Request) : Decidable request.Unwrapped :=
  match request with
  | .allocate bytes _ => inferInstanceAs (Decidable (MemoryAllocator.Unwrapped bytes))
  | .release _ => .isTrue trivial
  | .releaseAll _ => .isTrue trivial

theorem release_accounted (tiled : allocator.Tiled) (accounted : allocator.Accounted)
    (block : Block) : (allocator.release block).Accounted := by
  cases address : block.data with
  | null => simp only [release, address, accounted]
  | mapped offset => simp only [release, address, accounted]
  | arena offset =>
      cases held : allocator.live.find? offset with
      | some record =>
          have freed := (@release_live allocator offset block.size record tiled held).2.2.2.2
          rw [← address] at freed
          exact freed accounted
      | none =>
          simp only [release, address, held]
          split
          · exact accounted
          · exact ⟨accounted.requested, accounted.total, accounted.blocks, accounted.tagBytes,
              accounted.tagBlocks⟩

theorem serve_accounted (tiled : allocator.Tiled) (accounted : allocator.Accounted)
    {request : Request} (unwrapped : request.Unwrapped) : (allocator.serve request).Accounted := by
  cases request with
  | release block => exact release_accounted tiled accounted block
  | releaseAll tag => exact (releaseAll_spec tiled accounted tag).2.1
  | allocate bytes tag =>
      have fits : bytes.toNat + alignment ≤ word := unwrapped
      cases granted : allocator.allocate bytes.toNat tag with
      | error error =>
          simp only [serve, granted]
          exact accounted
      | ok result =>
          simp only [serve, granted]
          exact allocate_accounted tiled accounted fits granted

theorem serves_accounted (tiled : allocator.Tiled) (accounted : allocator.Accounted)
    {requests : List Request} (unwrapped : ∀ request ∈ requests, request.Unwrapped) :
    (requests.foldl serve allocator).Accounted := by
  induction requests generalizing allocator with
  | nil => exact accounted
  | cons request rest ih =>
      apply ih (serve_tiled tiled request)
        (serve_accounted tiled accounted (unwrapped request List.mem_cons_self))
      exact fun other member => unwrapped other (List.mem_cons_of_mem request member)

theorem run_accounted (capacity : UInt64) (garbage : Nat → UInt8) {requests : List Request}
    (unwrapped : ∀ request ∈ requests, request.Unwrapped) :
    (requests.foldl serve (new capacity garbage)).Tiled ∧
      (requests.foldl serve (new capacity garbage)).Accounted :=
  ⟨serves_tiled (new_tiled capacity garbage) requests,
    serves_accounted (new_tiled capacity garbage) (new_accounted capacity garbage) unwrapped⟩

end Accounted

theorem run_partitioned (capacity : UInt64) (garbage : Nat → UInt8) (requests : List Request) :
    (requests.foldl serve (new capacity garbage)).Partitioned :=
  (serves_tiled (new_tiled capacity garbage) requests).partitioned

end VectorVault.MemoryAllocator
