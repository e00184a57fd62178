import VectorVault.AllocatorAccounts

/-! Who owns the live blocks.

A tag holds a list of offsets when its live blocks start at exactly these. What
is done under one tag frames the blocks and the bytes of every other tag. -/

namespace VectorVault.MemoryAllocator

/-- The arena is tiled, the counters are right and no dead block was released. -/
structure Sound (allocator : MemoryAllocator) : Prop where
  tiled : allocator.Tiled
  accounted : allocator.Accounted
  released : allocator.ignoredReleases = 0

theorem new_sound (capacity : UInt64) (garbage : Nat → UInt8) : (new capacity garbage).Sound :=
  ⟨new_tiled capacity garbage, new_accounted capacity garbage, rfl⟩

/-- The live blocks of a tag start at `offsets` and were requested with `bytes`. -/
structure Holds (allocator : MemoryAllocator) (tag bytes : Nat) (offsets : List Nat) : Prop where
  blocks : ∀ offset, offset ∈ offsets ↔
    ∃ record, allocator.live.find? offset = some record ∧ record.tag = tag
  requested : ∀ offset record, allocator.live.find? offset = some record → record.tag = tag →
    record.requestedBytes = bytes
  distinct : offsets.Nodup

/-- Work under one tag: the blocks and the bytes of every other tag stay. -/
structure Frame (tag : Nat) (before after : MemoryAllocator) : Prop where
  capacity : after.capacityBytes = before.capacityBytes
  live : ∀ offset record, record.tag ≠ tag →
    (after.live.find? offset = some record ↔ before.live.find? offset = some record)
  bytes : ∀ offset record, before.live.find? offset = some record → record.tag ≠ tag →
    ∀ index < record.requestedBytes, after.arena (offset + index) = before.arena (offset + index)

/-- A fresh block with its content: no other block's bytes change. -/
structure Placed (before after : MemoryAllocator) (tag offset : Nat) (content : Bytes) : Prop where
  sound : after.Sound
  capacity : after.capacityBytes = before.capacityBytes
  absent : before.live.find? offset = none
  live : after.live =
    before.live.insert offset ⟨offset, needed content.length, content.length, tag⟩
  inside : offset + content.length ≤ before.capacityBytes
  bytes : ∀ other record, before.live.find? other = some record →
    ∀ index < record.requestedBytes, after.arena (other + index) = before.arena (other + index)
  stored : ∀ index (within : index < content.length), after.arena (offset + index) = content[index]

/-- Blocks are added only: those that were live keep their place and their bytes. -/
structure Grows (before after : MemoryAllocator) : Prop where
  capacity : after.capacityBytes = before.capacityBytes
  live : ∀ offset record, before.live.find? offset = some record →
    after.live.find? offset = some record
  bytes : ∀ offset record, before.live.find? offset = some record →
    ∀ index < record.requestedBytes, after.arena (offset + index) = before.arena (offset + index)

section Frame

variable {tag : Nat} {before middle after : MemoryAllocator}

theorem Frame.refl (tag : Nat) (allocator : MemoryAllocator) : Frame tag allocator allocator :=
  ⟨rfl, fun _ _ _ => Iff.rfl, fun _ _ _ _ _ _ => rfl⟩

theorem Frame.trans (first : Frame tag before middle) (second : Frame tag middle after) :
    Frame tag before after := by
  refine ⟨second.capacity.trans first.capacity, ?_, ?_⟩
  · intro offset record other
    exact (second.live offset record other).trans (first.live offset record other)
  · intro offset record held other index within
    have kept := (first.live offset record other).mpr held
    calc after.arena (offset + index) = middle.arena (offset + index) :=
          second.bytes offset record kept other index within
      _ = before.arena (offset + index) := first.bytes offset record held other index within

theorem Grows.refl (allocator : MemoryAllocator) : Grows allocator allocator :=
  ⟨rfl, fun _ _ held => held, fun _ _ _ _ _ => rfl⟩

theorem Grows.trans (first : Grows before middle) (second : Grows middle after) :
    Grows before after := by
  refine ⟨second.capacity.trans first.capacity, ?_, ?_⟩
  · intro offset record held
    exact second.live offset record (first.live offset record held)
  · intro offset record held index within
    exact (second.bytes offset record (first.live offset record held) index within).trans
      (first.bytes offset record held index within)

theorem Holds.frame {own bytes : Nat} {offsets : List Nat} (holds : before.Holds own bytes offsets)
    (frame : Frame tag before after) (other : own ≠ tag) : after.Holds own bytes offsets := by
  have same : ∀ offset record, record.tag = own →
      (after.live.find? offset = some record ↔ before.live.find? offset = some record) := by
    intro offset record isOwn
    apply frame.live
    rw [isOwn]
    exact other
  refine ⟨?_, ?_, holds.distinct⟩
  · intro offset
    rw [holds.blocks offset]
    exact exists_congr (fun record => and_congr_left (fun isOwn => (same offset record isOwn).symm))
  · intro offset record held isOwn
    exact holds.requested offset record ((same offset record isOwn).mp held) isOwn

end Frame

section Capacity

theorem release_capacity (allocator : MemoryAllocator) (block : Block) :
    (allocator.release block).capacityBytes = allocator.capacityBytes := by
  unfold release
  split
  · rfl
  · rfl
  · split
    · rfl
    · split <;> rfl

theorem releaseVisited_capacity (tag : Nat) (allocator : MemoryAllocator)
    (entry : Nat × AllocRecord) :
    (releaseVisited tag allocator entry).capacityBytes = allocator.capacityBytes := by
  unfold releaseVisited
  split <;> rfl

theorem releaseAll_capacity (allocator : MemoryAllocator) (tag : Nat) :
    (allocator.releaseAll tag).capacityBytes = allocator.capacityBytes := by
  have walk : ∀ (entries : List (Nat × AllocRecord)) (walked : MemoryAllocator),
      (entries.foldl (releaseVisited tag) walked).capacityBytes = walked.capacityBytes := by
    intro entries
    induction entries with
    | nil => exact fun _ => rfl
    | cons entry rest ih =>
        intro walked
        exact (ih _).trans (releaseVisited_capacity tag walked entry)
  exact walk allocator.live.entries allocator

end Capacity

section Holds

variable {allocator after : MemoryAllocator} {tag bytes : Nat} {offsets : List Nat}

theorem Holds.perm (holds : allocator.Holds tag bytes offsets) {other : List Nat}
    (permuted : offsets.Perm other) : allocator.Holds tag bytes other := by
  refine ⟨?_, holds.requested, permuted.nodup_iff.mp holds.distinct⟩
  intro offset
  rw [← permuted.mem_iff]
  exact holds.blocks offset

theorem Holds.live (holds : allocator.Holds tag bytes offsets) {offset : Nat}
    (member : offset ∈ offsets) : ∃ record, allocator.live.find? offset = some record ∧
      record.tag = tag ∧ record.requestedBytes = bytes := by
  obtain ⟨record, held, isTag⟩ := (holds.blocks offset).mp member
  exact ⟨record, held, isTag, holds.requested offset record held isTag⟩

theorem Sound.inside (sound : allocator.Sound) {offset : Nat} {record : AllocRecord}
    (held : allocator.live.find? offset = some record) :
    offset + record.requestedBytes ≤ allocator.capacityBytes := by
  have span : allocator.footprint offset = some record.roundedBytes :=
    (footprint_eq_some _ _ _).mpr ⟨record, held, rfl⟩
  have below := sound.tiled.tiling.live_below span
  have atMost := sound.accounted.requested offset record held
  omega

theorem allocate_placed {block : Block} {allocated : MemoryAllocator} (sound : allocator.Sound)
    {content : Bytes} (fits : content.length + alignment ≤ word)
    (granted : allocator.allocate content.length tag = .ok (block, allocated)) :
    ∃ offset, block = ⟨.arena offset, content.length⟩ ∧
      Placed allocator (allocated.store offset content) tag offset content := by
  obtain ⟨offset, isBlock, absent, live, arena, capacity⟩ := allocate_live sound.tiled granted
  have tiled := allocate_tiled sound.tiled granted
  have accounted := allocate_accounted sound.tiled sound.accounted fits granted
  have released : allocated.ignoredReleases = allocator.ignoredReleases := by
    obtain ⟨_, _, _, _, _, state⟩ := allocate_ok granted
    rw [state]
  have soundAfter : (allocated.store offset content).Sound :=
    ⟨⟨tiled.tiling, tiled.coalesced, tiled.freeAligned, tiled.liveAligned, tiled.capacityAligned,
      tiled.capacityBound, tiled.offsets⟩,
      ⟨accounted.requested, accounted.total, accounted.blocks, accounted.tagBytes,
        accounted.tagBlocks⟩, released.trans sound.released⟩
  have here : allocated.live.find? offset =
      some ⟨offset, needed content.length, content.length, tag⟩ := by
    rw [live, OrderedMap.find_insert_self]
  have enough := le_needed content.length fits
  refine ⟨offset, isBlock, soundAfter, capacity, absent, live, ?_, ?_, ?_⟩
  · rw [← capacity]
    exact Sound.inside soundAfter here
  · intro other record held index within
    have distinct : other ≠ offset := by
      intro same
      rw [same, absent] at held
      cases held
    have there : allocated.live.find? other = some record := by
      rw [live, OrderedMap.find_insert_of_ne _ _ distinct]
      exact held
    have requested := accounted.requested other record there
    have outside : ¬ (offset ≤ other + index ∧ other + index < offset + content.length) := by
      intro overlap
      apply distinct
      apply tiled.tiling.live_unique ((footprint_eq_some _ _ _).mpr ⟨_, there, rfl⟩)
        ((footprint_eq_some _ _ _).mpr ⟨_, here, rfl⟩) (Nat.le_add_right other index) _ overlap.1 _
      · omega
      · simp only
        omega
    rw [← arena]
    simp only [store]
    by_cases after : offset ≤ other + index
    · rw [if_pos after, List.getD_eq_getElem?_getD, List.getElem?_eq_none (by omega),
        Option.getD_none]
    · rw [if_neg after]
  · intro index within
    have address : offset + index - offset = index := by omega
    simp only [store, Nat.le_add_right, if_true, address, List.getD_eq_getElem?_getD,
      List.getElem?_eq_getElem within, Option.getD_some]

theorem Placed.frame {content : Bytes} {offset : Nat}
    (placed : Placed allocator after tag offset content) : Frame tag allocator after := by
  refine ⟨placed.capacity, ?_, ?_⟩
  · intro other record isOther
    rw [placed.live, OrderedMap.find_insert]
    by_cases here : other = offset
    · rw [if_pos here, here, placed.absent]
      constructor
      · intro same
        rw [← Option.some.inj same] at isOther
        exact absurd rfl isOther
      · intro held
        cases held
    · rw [if_neg here]
  · intro other record held _ index within
    exact placed.bytes other record held index within

theorem Placed.grows {content : Bytes} {offset : Nat}
    (placed : Placed allocator after tag offset content) : Grows allocator after := by
  refine ⟨placed.capacity, ?_, placed.bytes⟩
  intro other record held
  have distinct : other ≠ offset := by
    intro same
    rw [same, placed.absent] at held
    cases held
  rw [placed.live, OrderedMap.find_insert_of_ne _ _ distinct]
  exact held

theorem Placed.holds {content : Bytes} {offset : Nat}
    (placed : Placed allocator after tag offset content)
    (holds : allocator.Holds tag content.length offsets) :
    after.Holds tag content.length (offset :: offsets) := by
  have table := fun other => by
    have find := OrderedMap.find_insert allocator.live offset other
      ⟨offset, needed content.length, content.length, tag⟩
    rw [← placed.live] at find
    exact find
  have fresh : offset ∉ offsets := by
    intro member
    obtain ⟨record, held, _⟩ := (holds.blocks offset).mp member
    rw [placed.absent] at held
    cases held
  refine ⟨?_, ?_, List.nodup_cons.mpr ⟨fresh, holds.distinct⟩⟩
  · intro other
    rw [List.mem_cons, table other]
    by_cases here : other = offset
    · rw [if_pos here]
      exact iff_of_true (Or.inl here) ⟨_, rfl, rfl⟩
    · rw [if_neg here, ← holds.blocks other]
      exact or_iff_right here
  · intro other record held isTag
    rw [table other] at held
    by_cases here : other = offset
    · rw [if_pos here, Option.some.injEq] at held
      rw [← held]
    · rw [if_neg here] at held
      exact holds.requested other record held isTag

theorem release_owned {offset size : Nat} (sound : allocator.Sound)
    (holds : allocator.Holds tag bytes (offset :: offsets)) :
    (allocator.release ⟨.arena offset, size⟩).Sound ∧
      (allocator.release ⟨.arena offset, size⟩).Holds tag bytes offsets ∧
      Frame tag allocator (allocator.release ⟨.arena offset, size⟩) ∧
      (allocator.release ⟨.arena offset, size⟩).arena = allocator.arena := by
  obtain ⟨record, held, isTag, requested⟩ := holds.live List.mem_cons_self
  obtain ⟨live, arena, ignored, tiled, accounted⟩ :=
    @release_live allocator offset size record sound.tiled held
  have capacity : (allocator.release ⟨.arena offset, size⟩).capacityBytes =
      allocator.capacityBytes := release_capacity allocator _
  have table := fun other => OrderedMap.find_erase allocator.live offset other
  rw [← live] at table
  refine ⟨⟨tiled, accounted sound.accounted, ignored.trans sound.released⟩, ⟨?_, ?_, ?_⟩,
    ⟨capacity, ?_, ?_⟩, arena⟩
  · intro other
    rw [table other]
    by_cases here : other = offset
    · rw [if_pos here, here]
      apply iff_of_false (List.nodup_cons.mp holds.distinct).1
      intro found
      obtain ⟨_, none, _⟩ := found
      cases none
    · rw [if_neg here, ← holds.blocks other, List.mem_cons]
      exact (or_iff_right here).symm
  · intro other kept found isOwn
    rw [table other] at found
    by_cases here : other = offset
    · rw [if_pos here] at found
      cases found
    · rw [if_neg here] at found
      exact holds.requested other kept found isOwn
  · exact (List.nodup_cons.mp holds.distinct).2
  · intro other kept isOther
    rw [table other]
    by_cases here : other = offset
    · rw [if_pos here, here, held]
      constructor
      · intro found
        cases found
      · intro same
        rw [← Option.some.inj same] at isOther
        exact absurd isTag isOther
    · rw [if_neg here]
  · intro other kept _ _ index _
    rw [arena]

theorem releases_owned (size : Nat) (given : List Nat) (sound : allocator.Sound)
    (holds : allocator.Holds tag bytes (given ++ offsets)) :
    let final := (given.map (fun offset => (⟨.arena offset, size⟩ : Block))).foldl release allocator
    final.Sound ∧ final.Holds tag bytes offsets ∧ Frame tag allocator final ∧
      final.arena = allocator.arena := by
  induction given generalizing allocator with
  | nil => exact ⟨sound, holds, Frame.refl tag allocator, rfl⟩
  | cons offset rest ih =>
      obtain ⟨soundNext, holdsNext, frame, arena⟩ := @release_owned allocator tag bytes
        (rest ++ offsets) offset size sound holds
      obtain ⟨soundFinal, holdsFinal, frameFinal, arenaFinal⟩ := ih soundNext holdsNext
      exact ⟨soundFinal, holdsFinal, frame.trans frameFinal, arenaFinal.trans arena⟩

theorem releaseAll_owned (sound : allocator.Sound) (tag : Nat) :
    (allocator.releaseAll tag).Sound ∧ Frame tag allocator (allocator.releaseAll tag) ∧
      ∀ offset record, (allocator.releaseAll tag).live.find? offset = some record →
        record.tag ≠ tag ∧ allocator.live.find? offset = some record := by
  obtain ⟨tiled, accounted, arena, ignored, table⟩ :=
    releaseAll_spec sound.tiled sound.accounted tag
  have kept : ∀ offset record, (allocator.releaseAll tag).live.find? offset = some record ↔
      allocator.live.find? offset = some record ∧ record.tag ≠ tag := by
    intro offset record
    rw [table, Option.filter_eq_some_iff, decide_eq_true_eq]
  refine ⟨⟨tiled, accounted, ignored.trans sound.released⟩,
    ⟨releaseAll_capacity allocator tag, ?_, ?_⟩, ?_⟩
  · intro offset record other
    rw [kept]
    exact and_iff_left other
  · intro offset record _ _ index _
    rw [arena]
  · intro offset record held
    exact ((kept offset record).mp held).symm

theorem sum_blocksOf (tag : Nat) (entries : List (Nat × AllocRecord)) :
    (entries.map (blocksOf tag)).sum = entries.countP (fun entry => decide (entry.2.tag = tag)) := by
  induction entries with
  | nil => rfl
  | cons entry rest ih =>
      rw [List.map_cons, List.sum_cons, ih, List.countP_cons]
      simp only [blocksOf, decide_eq_true_eq]
      exact Nat.add_comm _ _

theorem Holds.statsOf (sound : allocator.Sound) (holds : allocator.Holds tag bytes offsets) :
    allocator.statsOf tag = ⟨bytes * offsets.length, offsets.length⟩ := by
  have members : ∀ offset, offset ∈ (allocator.live.entries.filter
      (fun entry => decide (entry.2.tag = tag))).map Prod.fst ↔ offset ∈ offsets := by
    intro offset
    rw [holds.blocks offset]
    simp only [List.mem_map, List.mem_filter, decide_eq_true_eq, Prod.exists,
      exists_and_right, exists_eq_right, OrderedMap.find_eq_some_iff]
  have nodup : ((allocator.live.entries.filter
      (fun entry => decide (entry.2.tag = tag))).map Prod.fst).Nodup :=
    ((List.filter_sublist).map Prod.fst).nodup allocator.live.nodup_keys
  have count : allocator.live.sumBy (blocksOf tag) = offsets.length := by
    calc allocator.live.sumBy (blocksOf tag)
        = allocator.live.entries.countP (fun entry => decide (entry.2.tag = tag)) :=
          sum_blocksOf tag allocator.live.entries
      _ = ((allocator.live.entries.filter
            (fun entry => decide (entry.2.tag = tag))).map Prod.fst).length := by
          rw [List.countP_eq_length_filter, List.length_map]
      _ = offsets.length :=
          ((List.perm_ext_iff_of_nodup nodup holds.distinct).mpr members).length_eq
  have total : allocator.live.sumBy (requestedOf tag) = bytes * allocator.live.sumBy (blocksOf tag) := by
    rw [OrderedMap.sumBy, OrderedMap.sumBy, ← List.sum_map_mul_left]
    congr 1
    apply List.map_congr_left
    intro entry member
    have held := (OrderedMap.find_eq_some_iff _ _ _).mpr member
    by_cases isTag : entry.2.tag = tag
    · simp only [requestedOf, blocksOf, if_pos isTag, Nat.mul_one]
      exact holds.requested entry.1 entry.2 held isTag
    · simp only [requestedOf, blocksOf, if_neg isTag, Nat.mul_zero]
  rw [MemoryAllocator.statsOf, sound.accounted.tagBytes tag trivial,
    sound.accounted.tagBlocks tag trivial, total, count]

end Holds

end VectorVault.MemoryAllocator
