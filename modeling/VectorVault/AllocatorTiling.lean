import VectorVault.Allocator

/-! The allocator keeps its free spans and live footprints tiling the arena.

Each operation is reduced once to what it does to the live table and to the
arena bytes; the tiling of the free list follows from the general theory. -/

namespace VectorVault.MemoryAllocator

open Tiling

theorem alignment_dvd_roundUp (bytes : Nat) : alignment ∣ roundUp bytes :=
  Nat.dvd_mul_left alignment _

theorem needed_pos (bytes : Nat) : 0 < needed bytes := by
  unfold needed
  split
  · decide
  · omega

theorem alignment_dvd_needed (bytes : Nat) : alignment ∣ needed bytes := by
  unfold needed
  split
  · exact dvd_refl alignment
  · exact alignment_dvd_roundUp bytes

theorem le_needed (bytes : Nat) (fits : bytes + alignment ≤ word) : bytes ≤ needed bytes := by
  have rounds : bytes ≤ roundUp bytes := by
    unfold roundUp wordAdd
    rw [Nat.mod_eq_of_lt (by simp only [alignment] at fits ⊢; omega)]
    simp only [alignment]
    omega
  unfold needed
  split <;> omega

def footprint (allocator : MemoryAllocator) : SpanTable :=
  fun offset => (allocator.live.find? offset).map AllocRecord.roundedBytes

theorem footprint_eq_some (allocator : MemoryAllocator) (offset length : Nat) :
    allocator.footprint offset = some length ↔
      ∃ record, allocator.live.find? offset = some record ∧ record.roundedBytes = length := by
  simp [footprint, Option.map_eq_some_iff]

structure Tiled (allocator : MemoryAllocator) : Prop where
  tiling : Tiling allocator.capacityBytes allocator.freeByOffset.find? allocator.footprint
  coalesced : Coalesced allocator.freeByOffset.find?
  freeAligned : Aligned alignment allocator.freeByOffset.find?
  liveAligned : Aligned alignment allocator.footprint
  capacityAligned : alignment ∣ allocator.capacityBytes
  capacityBound : allocator.capacityBytes < word
  offsets : ∀ offset record, allocator.live.find? offset = some record → record.offset = offset

theorem new_tiled (capacity : UInt64) (garbage : Nat → UInt8) : (new capacity garbage).Tiled := by
  have bound : capacity.toNat < word := capacity.toNat_lt
  have live : (new capacity garbage).footprint = fun _ => none := rfl
  have aligned : alignment ∣ capacity.toNat - capacity.toNat % alignment :=
    Nat.dvd_sub_mod capacity.toNat
  by_cases positive : capacity.toNat - capacity.toNat % alignment > 0
  · have free : (new capacity garbage).freeByOffset.find? =
        put (fun _ => none) 0 (capacity.toNat - capacity.toNat % alignment) := by
      funext offset
      simp [new, positive, OrderedMap.find_insert, put]
    refine ⟨?_, ?_, ?_, ?_, aligned, ?_, ?_⟩
    · rw [free, live]
      exact start _ positive
    · rw [free]
      intro offset length span
      rw [put_eq_some] at span
      simp only [reduceCtorEq, and_false, or_false] at span
      simp only [put]
      rw [if_neg (by omega)]
    · rw [free]
      intro offset length span
      rw [put_eq_some] at span
      simp only [reduceCtorEq, and_false, or_false] at span
      rw [span.1, ← span.2]
      exact ⟨Nat.dvd_zero _, aligned⟩
    · rw [live]
      intro offset length span
      cases span
    · simp only [new]
      omega
    · intro offset record held
      simp [new] at held
  · have zero : capacity.toNat - capacity.toNat % alignment = 0 := by omega
    have free : (new capacity garbage).freeByOffset.find? = fun _ => none := by
      funext offset
      simp [new, zero]
    refine ⟨?_, ?_, ?_, ?_, aligned, ?_, ?_⟩
    · rw [free, live]
      simp only [new, zero]
      exact Tiling.empty
    · rw [free]
      intro offset length span
      cases span
    · rw [free]
      intro offset length span
      cases span
    · rw [live]
      intro offset length span
      cases span
    · simp only [new]
      omega
    · intro offset record held
      simp [new] at held

theorem allocate_ok {allocator allocator' : MemoryAllocator} {bytes tag : Nat} {block : Block}
    (granted : allocator.allocate bytes tag = .ok (block, allocator')) :
    ∃ offset span, allocator.freeByOffset.find? offset = some span ∧ needed bytes ≤ span ∧
      block = ⟨.arena offset, bytes⟩ ∧
      allocator' =
        { allocator with
          freeByOffset :=
            if span > needed bytes
            then (allocator.freeByOffset.erase offset).emplace (offset + needed bytes)
              (span - needed bytes)
            else allocator.freeByOffset.erase offset
          live := allocator.live.emplace offset ⟨offset, needed bytes, bytes, tag⟩
          totalAllocatedBytes := wordAdd allocator.totalAllocatedBytes bytes
          liveBlockCount := wordAdd allocator.liveBlockCount 1
          tagBytes := credit allocator.tagBytes tag bytes
          tagBlocks := credit allocator.tagBlocks tag 1 } := by
  unfold allocate at granted
  split at granted
  · cases granted
  · next offset span fit =>
      have large := List.find?_some fit
      have member := List.mem_of_find?_eq_some fit
      simp only [Except.ok.injEq, Prod.mk.injEq] at granted
      refine ⟨offset, span, (OrderedMap.find_eq_some_iff _ _ _).mpr member, ?_,
        granted.1.symm, granted.2.symm⟩
      simpa using large

theorem carved_find {free : OrderedMap Nat Nat} {offset span need : Nat}
    (fresh : need < span → (free.erase offset).find? (offset + need) = none) :
    (if span > need then (free.erase offset).emplace (offset + need) (span - need)
      else free.erase offset).find? = carved free.find? offset span need := by
  funext other
  by_cases rest : span > need
  · rw [if_pos rest, OrderedMap.emplace_of_absent _ _ _ (fresh rest)]
    simp only [OrderedMap.find_insert, OrderedMap.find_erase, carved, if_pos rest, put, drop]
  · simp only [if_neg rest, carved, OrderedMap.find_erase, drop]

theorem allocate_live {allocator allocator' : MemoryAllocator} {bytes tag : Nat} {block : Block}
    (tiled : allocator.Tiled) (granted : allocator.allocate bytes tag = .ok (block, allocator')) :
    ∃ offset, block = ⟨.arena offset, bytes⟩ ∧ allocator.live.find? offset = none ∧
      allocator'.live = allocator.live.insert offset ⟨offset, needed bytes, bytes, tag⟩ ∧
      allocator'.arena = allocator.arena ∧ allocator'.capacityBytes = allocator.capacityBytes := by
  obtain ⟨offset, span, free, _, shape, state⟩ := allocate_ok granted
  have absent : allocator.live.find? offset = none := by
    have unused := tiled.tiling.free_not_live free
    simpa [footprint] using unused
  refine ⟨offset, shape, absent, ?_, ?_, ?_⟩
  · rw [state]
    exact OrderedMap.emplace_of_absent _ _ _ absent
  · rw [state]
  · rw [state]

theorem Tiled.remainder_absent {allocator : MemoryAllocator} (tiled : allocator.Tiled)
    {offset span need : Nat} (free : allocator.freeByOffset.find? offset = some span)
    (positive : 0 < need) (rest : need < span) :
    (allocator.freeByOffset.erase offset).find? (offset + need) = none := by
  rw [OrderedMap.find_erase, if_neg (by omega)]
  cases held : allocator.freeByOffset.find? (offset + need) with
  | none => rfl
  | some size =>
      have apart := tiled.tiling.freeApart offset span _ size free held (by omega)
      omega

theorem allocate_tiled {allocator allocator' : MemoryAllocator} {bytes tag : Nat} {block : Block}
    (tiled : allocator.Tiled) (granted : allocator.allocate bytes tag = .ok (block, allocator')) :
    allocator'.Tiled := by
  obtain ⟨offset, span, free, fits, _, state⟩ := allocate_ok granted
  have positive := needed_pos bytes
  have unused : allocator.footprint offset = none := tiled.tiling.free_not_live free
  have absent : allocator.live.find? offset = none := by simpa [footprint] using unused
  have fresh : needed bytes < span →
      (allocator.freeByOffset.erase offset).find? (offset + needed bytes) = none :=
    tiled.remainder_absent free positive
  have freeTable : allocator'.freeByOffset.find? =
      carved allocator.freeByOffset.find? offset span (needed bytes) := by
    rw [state]
    exact carved_find fresh
  have liveTable : allocator'.footprint = put allocator.footprint offset (needed bytes) := by
    funext other
    simp only [footprint, state, put, OrderedMap.emplace_of_absent _ _ _ absent,
      OrderedMap.find_insert]
    by_cases same : other = offset <;> simp [same]
  have capacity : allocator'.capacityBytes = allocator.capacityBytes := by rw [state]
  have aligned := tiled.freeAligned offset span free
  have need := alignment_dvd_needed bytes
  refine ⟨?_, ?_, ?_, ?_, ?_, ?_, ?_⟩
  · rw [capacity, freeTable, liveTable]
    exact tiled.tiling.carve free fits positive
  · rw [freeTable]
    exact tiled.tiling.carved_coalesced tiled.coalesced free positive
  · rw [freeTable]
    exact carved_aligned tiled.freeAligned free need
  · rw [liveTable]
    intro first length held
    rw [put_eq_some] at held
    rcases held with ⟨rfl, rfl⟩ | ⟨_, held⟩
    · exact ⟨aligned.1, need⟩
    · exact tiled.liveAligned first length held
  · rw [capacity]
    exact tiled.capacityAligned
  · rw [capacity]
    exact tiled.capacityBound
  · intro other record held
    rw [state] at held
    simp only [OrderedMap.emplace_of_absent _ _ _ absent, OrderedMap.find_insert] at held
    by_cases same : other = offset
    · rw [if_pos same, Option.some.injEq] at held
      rw [← held, same]
    · rw [if_neg same] at held
      exact tiled.offsets other record held

section Coalescing

variable {capacity : Nat} {free : OrderedMap Nat Nat} {live : SpanTable}

/-- Spans touch no later one, except those that end at `offset` and the one there. -/
def CoalescedExcept (offset : Nat) (table : SpanTable) : Prop :=
  ∀ other length, table other = some length → other ≠ offset → other + length ≠ offset →
    table (other + length) = none

theorem find_joined (free : OrderedMap Nat Nat) {offset size : Nat} (positive : 0 < size)
    (nextSize : Nat) :
    ((free.insert offset (size + nextSize)).erase (offset + size)).find? =
      joined free.find? offset size nextSize := by
  funext other
  simp only [OrderedMap.find_erase, OrderedMap.find_insert, joined, put, drop]
  by_cases atOffset : other = offset
  · have before : ¬ other = offset + size := by omega
    rw [if_neg before, if_pos atOffset, if_pos atOffset]
  · rw [if_neg atOffset, if_neg atOffset]

theorem before_of_touch (tiling : Tiling capacity free.find? live) {offset other length : Nat}
    (held : free.find? other = some length) (touch : other + length = offset) :
    free.before? offset = some (other, length) := by
  have otherPositive := tiling.freePositive other length held
  cases found : free.before? offset with
  | none => exact absurd (show other < offset by omega) (OrderedMap.before_eq_none free found _ _ held)
  | some entry =>
      rcases OrderedMap.before_eq_some free found with ⟨here, below, most⟩
      have atMost := most other length held (by omega)
      have same : other = entry.1 := by
        by_contra distinct
        have apart := tiling.freeApart other length entry.1 entry.2 held here (by omega)
        omega
      subst same
      rw [held, Option.some.injEq] at here
      rw [here]

theorem coalesceNext_spec (tiling : Tiling capacity free.find? live) {offset size : Nat}
    (span : free.find? offset = some size) (gaps : CoalescedExcept offset free.find?) :
    Tiling capacity (coalesceNext free offset size).1.find? live ∧
      (coalesceNext free offset size).1.find? offset = some (coalesceNext free offset size).2 ∧
      (coalesceNext free offset size).1.find? (offset + (coalesceNext free offset size).2) = none ∧
      CoalescedExcept offset (coalesceNext free offset size).1.find? ∧
      (Aligned alignment free.find? → Aligned alignment (coalesceNext free offset size).1.find?) := by
  have positive := tiling.freePositive offset size span
  unfold coalesceNext
  cases found : free.after? offset with
  | none =>
      have nothing := OrderedMap.after_eq_none free found
      refine ⟨tiling, span, ?_, gaps, id⟩
      refine Option.eq_none_iff_forall_ne_some.mpr ?_
      intro next held
      exact nothing _ next held (show offset < offset + size by omega)
  | some entry =>
      obtain ⟨next, nextSize⟩ := entry
      obtain ⟨held, above, least⟩ := OrderedMap.after_eq_some free found
      simp only at held above least ⊢
      by_cases touch : offset + size = next
      · subst touch
        have nextPositive := tiling.freePositive _ nextSize held
        have joint := tiling.join span held
        simp only [if_true]
        rw [find_joined free positive]
        refine ⟨joint, by simp [joined, put], ?_, ?_, ?_⟩
        · have gap := gaps _ nextSize held (by omega) (by omega)
          simp only [joined, put, drop]
          rw [if_neg (by omega), if_neg (by omega), ← gap]
          congr 1
          omega
        · intro other length span' distinct apart
          rw [joined_eq_some] at span'
          rcases span' with ⟨same, _⟩ | ⟨_, notNext, span'⟩
          · exact absurd same distinct
          · have gap := gaps other length span' distinct apart
            simp only [joined, put, drop]
            rw [if_neg apart, gap]
            simp
        · intro aligned
          exact joined_aligned aligned span held
      · simp only [if_neg touch]
        refine ⟨tiling, span, ?_, gaps, id⟩
        refine Option.eq_none_iff_forall_ne_some.mpr ?_
        intro other here
        have low := least _ other here (by omega)
        have high := tiling.freeApart offset size next nextSize span held above
        omega

theorem coalescePrevious_spec (tiling : Tiling capacity free.find? live) {offset size : Nat}
    (span : free.find? offset = some size) (gaps : CoalescedExcept offset free.find?)
    (after : free.find? (offset + size) = none) :
    Tiling capacity (coalescePrevious free offset size).find? live ∧
      Coalesced (coalescePrevious free offset size).find? ∧
      (Aligned alignment free.find? →
        Aligned alignment (coalescePrevious free offset size).find?) := by
  have separate : ∀ other length, free.find? other = some length → other + length ≠ offset →
      free.find? (other + length) = none := by
    intro other length held apart
    by_cases same : other = offset
    · subst same
      rw [span, Option.some.injEq] at held
      rw [← held]
      exact after
    · exact gaps other length held same apart
  unfold coalescePrevious
  cases found : free.before? offset with
  | none =>
      refine ⟨tiling, ?_, id⟩
      intro other length held
      refine separate other length held ?_
      intro touch
      rw [before_of_touch tiling held touch] at found
      cases found
  | some entry =>
      obtain ⟨previous, previousSize⟩ := entry
      obtain ⟨held, below, most⟩ := OrderedMap.before_eq_some free found
      simp only at held below most ⊢
      by_cases touch : previous + previousSize = offset
      · subst touch
        have previousPositive := tiling.freePositive _ previousSize held
        simp only [if_true]
        rw [find_joined free previousPositive]
        refine ⟨tiling.join held span, ?_, ?_⟩
        · intro other length span'
          have none_of : ∀ point, free.find? point = none → point ≠ previous →
              joined free.find? previous previousSize size point = none := by
            intro point absent distinct
            simp only [joined, put, drop]
            rw [if_neg distinct, absent]
            simp
          rw [joined_eq_some] at span'
          rcases span' with ⟨rfl, rfl⟩ | ⟨notPrevious, notNext, span'⟩
          · refine none_of _ ?_ (by omega)
            rw [← Nat.add_assoc]
            exact after
          · have apart : other + length ≠ previous + previousSize := by
              intro collide
              have same := before_of_touch tiling span' collide
              rw [found, Option.some.injEq, Prod.mk.injEq] at same
              exact notPrevious same.1.symm
            have gap := separate other length span' apart
            refine none_of _ gap ?_
            intro collide
            rw [collide, held] at gap
            cases gap
        · intro aligned
          exact joined_aligned aligned held span
      · simp only [if_neg touch]
        refine ⟨tiling, ?_, id⟩
        intro other length span'
        refine separate other length span' ?_
        intro collide
        rw [before_of_touch tiling span' collide, Option.some.injEq, Prod.mk.injEq] at found
        exact touch (by rw [← found.1, ← found.2]; exact collide)

theorem freeSpan_spec (tiling : Tiling capacity free.find? live) (gaps : Coalesced free.find?)
    {offset size : Nat} (span : live offset = some size) :
    Tiling capacity (freeSpan free offset size).find? (drop live offset) ∧
      Coalesced (freeSpan free offset size).find? ∧
      (Aligned alignment free.find? → alignment ∣ offset → alignment ∣ size →
        Aligned alignment (freeSpan free offset size).find?) := by
  have positive := tiling.livePositive offset size span
  have absent := tiling.live_not_free span
  have table : (free.insert offset size).find? = put free.find? offset size := by
    funext other
    simp only [OrderedMap.find_insert, put]
  have given := tiling.give span
  rw [← table] at given
  have held : (free.insert offset size).find? offset = some size := OrderedMap.find_insert_self _ _ _
  have except_ : CoalescedExcept offset (free.insert offset size).find? := by
    intro other length here distinct apart
    rw [OrderedMap.find_insert_of_ne _ _ distinct] at here
    rw [OrderedMap.find_insert_of_ne _ _ apart]
    exact gaps other length here
  have next := coalesceNext_spec given held except_
  have previous := coalescePrevious_spec next.1 next.2.1 next.2.2.2.1 next.2.2.1
  unfold freeSpan
  rw [if_neg (by omega), OrderedMap.emplace_of_absent _ _ _ absent]
  refine ⟨previous.1, previous.2.1, ?_⟩
  intro aligned first second
  refine previous.2.2 (next.2.2.2.2 ?_)
  intro other length here
  rw [table, put_eq_some] at here
  rcases here with ⟨rfl, rfl⟩ | ⟨_, here⟩
  · exact ⟨first, second⟩
  · exact aligned other length here

end Coalescing

theorem freed_tiled {allocator freed : MemoryAllocator} {offset : Nat} {record : AllocRecord}
    (tiled : allocator.Tiled) (held : allocator.live.find? offset = some record)
    (live : freed.live = allocator.live.erase offset)
    (free : freed.freeByOffset = freeSpan allocator.freeByOffset record.offset record.roundedBytes)
    (capacity : freed.capacityBytes = allocator.capacityBytes) : freed.Tiled := by
  have here := tiled.offsets offset record held
  have span : allocator.footprint offset = some record.roundedBytes :=
    (footprint_eq_some _ _ _).mpr ⟨record, held, rfl⟩
  have table : freed.footprint = drop allocator.footprint offset := by
    funext other
    simp only [footprint, live, OrderedMap.find_erase, drop]
    by_cases same : other = offset <;> simp [same]
  have spec := freeSpan_spec tiled.tiling tiled.coalesced span
  have aligned := tiled.liveAligned offset _ span
  refine ⟨?_, ?_, ?_, ?_, ?_, ?_, ?_⟩
  · rw [capacity, free, here, table]
    exact spec.1
  · rw [free, here]
    exact spec.2.1
  · rw [free, here]
    exact spec.2.2 tiled.freeAligned aligned.1 aligned.2
  · rw [table]
    intro other length dropped
    exact tiled.liveAligned other length ((drop_eq_some _ _ _ _).mp dropped).2
  · rw [capacity]
    exact tiled.capacityAligned
  · rw [capacity]
    exact tiled.capacityBound
  · intro other kept found
    rw [live, OrderedMap.find_erase] at found
    split at found
    · cases found
    · exact tiled.offsets other kept found

end VectorVault.MemoryAllocator
