import VectorVault.AllocatorGaps

/-! How many requests of one size the arena still has room for.

First fit takes exactly one room for each request of that size, however the free
spans lie, and fails only when there is none. A release never takes one away. -/

namespace VectorVault.MemoryAllocator

def rooms (unit : Nat) (free : OrderedMap Nat Nat) : Nat :=
  free.sumBy (fun span => span.2 / unit)

variable {unit : Nat} {free : OrderedMap Nat Nat}

section Spans

theorem rooms_insert (free : OrderedMap Nat Nat) (offset size : Nat) :
    rooms unit (free.insert offset size) = size / unit + rooms unit (free.erase offset) :=
  OrderedMap.sumBy_insert free offset size _

theorem rooms_present {offset size : Nat} (span : free.find? offset = some size) :
    rooms unit free = size / unit + rooms unit (free.erase offset) :=
  OrderedMap.sumBy_erase_of_present free offset size _ span

theorem rooms_joined {offset size next nextSize : Nat} (span : free.find? offset = some size)
    (following : free.find? next = some nextSize) (distinct : next ≠ offset) :
    rooms unit free ≤ rooms unit ((free.insert offset (size + nextSize)).erase next) := by
  have kept : (free.insert offset (size + nextSize)).find? next = some nextSize := by
    rw [OrderedMap.find_insert_of_ne _ _ distinct]
    exact following
  have before : rooms unit free = size / unit + rooms unit (free.erase offset) := rooms_present span
  have after := @rooms_insert unit free offset (size + nextSize)
  have dropped : rooms unit (free.insert offset (size + nextSize)) =
      nextSize / unit + rooms unit ((free.insert offset (size + nextSize)).erase next) :=
    rooms_present kept
  have together := @Nat.div_add_div_le_add_div size nextSize unit
  omega

theorem coalesceNext_find {offset size : Nat} (span : free.find? offset = some size) :
    (coalesceNext free offset size).1.find? offset = some (coalesceNext free offset size).2 := by
  unfold coalesceNext
  cases found : free.after? offset with
  | none => exact span
  | some entry =>
      have following := OrderedMap.after_eq_some free found
      simp only
      split
      · rw [OrderedMap.find_erase, if_neg (Nat.ne_of_lt following.2.1)]
        exact OrderedMap.find_insert_self _ _ _
      · exact span

theorem rooms_coalesceNext {offset size : Nat} (span : free.find? offset = some size) :
    rooms unit free ≤ rooms unit (coalesceNext free offset size).1 := by
  unfold coalesceNext
  cases found : free.after? offset with
  | none => exact le_rfl
  | some entry =>
      have following := OrderedMap.after_eq_some free found
      simp only
      split
      · next touch => exact rooms_joined span following.1 (Nat.ne_of_gt following.2.1)
      · exact le_rfl

theorem rooms_coalescePrevious {offset size : Nat} (span : free.find? offset = some size) :
    rooms unit free ≤ rooms unit (coalescePrevious free offset size) := by
  unfold coalescePrevious
  cases found : free.before? offset with
  | none => exact le_rfl
  | some entry =>
      have preceding := OrderedMap.before_eq_some free found
      simp only
      split
      · next touch => exact rooms_joined preceding.1 span (Nat.ne_of_gt preceding.2.1)
      · exact le_rfl

theorem rooms_freeSpan {offset size : Nat} (absent : free.find? offset = none) :
    rooms unit free ≤ rooms unit (freeSpan free offset size) := by
  have held : (free.insert offset size).find? offset = some size := OrderedMap.find_insert_self _ _ _
  unfold freeSpan
  split
  · exact le_rfl
  · rw [OrderedMap.emplace_of_absent _ _ _ absent]
    calc rooms unit free
        ≤ size / unit + rooms unit free := Nat.le_add_left _ _
      _ = rooms unit (free.insert offset size) := by
          rw [rooms_insert, OrderedMap.erase_of_absent _ _ absent]
      _ ≤ rooms unit (coalesceNext (free.insert offset size) offset size).1 :=
          rooms_coalesceNext held
      _ ≤ _ := rooms_coalescePrevious (coalesceNext_find held)

end Spans

section Requests

variable {allocator allocated : MemoryAllocator} {bytes tag : Nat} {block : Block}

theorem allocate_rooms (tiled : allocator.Tiled)
    (granted : allocator.allocate bytes tag = .ok (block, allocated)) :
    rooms (needed bytes) allocated.freeByOffset + 1 =
      rooms (needed bytes) allocator.freeByOffset := by
  obtain ⟨offset, span, free, fits, _, state⟩ := allocate_ok granted
  have positive := needed_pos bytes
  have before : rooms (needed bytes) allocator.freeByOffset =
      span / needed bytes + rooms (needed bytes) (allocator.freeByOffset.erase offset) :=
    rooms_present free
  have one : span / needed bytes = (span - needed bytes) / needed bytes + 1 := by
    rw [Nat.div_eq_sub_div positive fits]
  rw [state]
  simp only
  by_cases rest : span > needed bytes
  · have fresh : (allocator.freeByOffset.erase offset).find? (offset + needed bytes) = none :=
      tiled.remainder_absent free positive rest
    rw [if_pos rest, OrderedMap.emplace_of_absent _ _ _ fresh, rooms_insert,
      OrderedMap.erase_of_absent _ _ fresh]
    omega
  · have exactly : span - needed bytes = 0 := by omega
    rw [exactly, Nat.zero_div] at one
    rw [if_neg rest]
    omega

theorem allocate_of_rooms (bytes tag : Nat)
    (available : 0 < rooms (needed bytes) allocator.freeByOffset) :
    ∃ block allocated, allocator.allocate bytes tag = .ok (block, allocated) := by
  cases granted : allocator.allocate bytes tag with
  | ok result => exact ⟨result.1, result.2, rfl⟩
  | error error =>
      have refused := (allocate_error granted).2
      have nothing : rooms (needed bytes) allocator.freeByOffset = 0 := by
        apply List.sum_eq_zero
        intro fitting member
        obtain ⟨span, inside, same⟩ := List.mem_map.mp member
        have small := refused span.1 span.2 ((OrderedMap.find_eq_some_iff _ _ _).mpr inside)
        rw [← same]
        exact Nat.div_eq_of_lt small
      omega

theorem release_rooms (tiled : allocator.Tiled) (block : Block) :
    rooms unit allocator.freeByOffset ≤ rooms unit (allocator.release block).freeByOffset := by
  unfold release
  split
  · exact le_rfl
  · exact le_rfl
  · next offset _ =>
      split
      · exact le_rfl
      · split
        · exact le_rfl
        · next record held =>
            apply rooms_freeSpan
            have span : allocator.footprint offset = some record.roundedBytes :=
              (footprint_eq_some _ _ _).mpr ⟨record, held, rfl⟩
            rw [tiled.offsets offset record held]
            exact tiled.tiling.live_not_free span

end Requests

end VectorVault.MemoryAllocator
