import VectorVault.AllocatorTiling

/-! The allocator's counters equal what the live table says.

Requested sizes never exceed footprints when rounding does not wrap, and the
footprints fit the arena, so none of the 64-bit sums and differences wraps. -/

namespace VectorVault.MemoryAllocator

open Tiling

def requestedOf (tag : Nat) (entry : Nat × AllocRecord) : Nat :=
  if entry.2.tag = tag then entry.2.requestedBytes else 0

def blocksOf (tag : Nat) (entry : Nat × AllocRecord) : Nat :=
  if entry.2.tag = tag then 1 else 0

/-- The counters agree with the live table, the per-tag ones for the tags in `tags`. -/
structure AccountedFor (tags : Nat → Prop) (allocator : MemoryAllocator) : Prop where
  requested : ∀ offset record, allocator.live.find? offset = some record →
    record.requestedBytes ≤ record.roundedBytes
  total : allocator.totalAllocatedBytes =
    allocator.live.sumBy (fun entry => entry.2.requestedBytes)
  blocks : allocator.liveBlockCount = allocator.live.size
  tagBytes : ∀ tag, tags tag →
    (allocator.tagBytes.find? tag).getD 0 = allocator.live.sumBy (requestedOf tag)
  tagBlocks : ∀ tag, tags tag →
    (allocator.tagBlocks.find? tag).getD 0 = allocator.live.sumBy (blocksOf tag)

def Accounted (allocator : MemoryAllocator) : Prop := allocator.AccountedFor (fun _ => True)

theorem new_accounted (capacity : UInt64) (garbage : Nat → UInt8) :
    (new capacity garbage).Accounted := by
  refine ⟨?_, rfl, rfl, ?_, ?_⟩
  · intro offset record held
    simp [new] at held
  · intro tag _
    rfl
  · intro tag _
    rfl

theorem sumBy_mono {live : OrderedMap Nat AllocRecord} {first second : Nat × AllocRecord → Nat}
    (atMost : ∀ offset record, live.find? offset = some record →
      first (offset, record) ≤ second (offset, record)) : live.sumBy first ≤ live.sumBy second := by
  apply List.sum_le_sum
  intro entry member
  exact atMost entry.1 entry.2 ((OrderedMap.find_eq_some_iff _ _ _).mpr member)

theorem rounded_le_capacity {allocator : MemoryAllocator} (tiled : allocator.Tiled) :
    allocator.live.sumBy (fun entry => entry.2.roundedBytes) ≤ allocator.capacityBytes := by
  have held : ∀ entry ∈ allocator.live.entries,
      allocator.footprint entry.1 = some entry.2.roundedBytes := by
    intro entry member
    exact (footprint_eq_some _ _ _).mpr
      ⟨entry.2, (OrderedMap.find_eq_some_iff _ _ _).mpr member, rfl⟩
  have ordered : (allocator.live.entries.map (fun entry => (entry.1, entry.2.roundedBytes))).Pairwise
      (fun first second => first.1 + first.2 ≤ second.1) := by
    rw [List.pairwise_map]
    refine allocator.live.sorted.imp_of_mem ?_
    intro first second memberFirst memberSecond less
    exact tiled.tiling.liveApart _ _ _ _ (held first memberFirst) (held second memberSecond) less
  have bounded := @sum_le _ 0 allocator.capacityBytes ordered
    (fun _ _ => Nat.zero_le _)
    (by
      intro span member
      obtain ⟨entry, inside, rfl⟩ := List.mem_map.mp member
      exact tiled.tiling.live_below (held entry inside))
    (Nat.zero_le _)
  rw [List.map_map, Nat.zero_add] at bounded
  exact bounded

variable {allocator allocator' : MemoryAllocator} {tags : Nat → Prop}

theorem total_lt_word (tiled : allocator.Tiled)
    (requested : ∀ offset record, allocator.live.find? offset = some record →
      record.requestedBytes ≤ record.roundedBytes) :
    allocator.live.sumBy (fun entry => entry.2.requestedBytes) < word :=
  ((sumBy_mono requested).trans (rounded_le_capacity tiled)).trans_lt tiled.capacityBound

theorem requestedOf_lt_word (tiled : allocator.Tiled) (tag : Nat)
    (requested : ∀ offset record, allocator.live.find? offset = some record →
      record.requestedBytes ≤ record.roundedBytes) :
    allocator.live.sumBy (requestedOf tag) < word := by
  refine (sumBy_mono ?_).trans_lt (total_lt_word tiled requested)
  intro offset record _
  unfold requestedOf
  split <;> omega

theorem blocks_lt_word (tiled : allocator.Tiled) : allocator.live.size < word := by
  have counted : allocator.live.size = allocator.live.sumBy (fun _ => 1) := by
    simp [OrderedMap.size, OrderedMap.sumBy]
  rw [counted]
  refine ((sumBy_mono ?_).trans (rounded_le_capacity tiled)).trans_lt tiled.capacityBound
  intro offset record held
  exact tiled.tiling.livePositive offset _ ((footprint_eq_some _ _ _).mpr ⟨record, held, rfl⟩)

theorem blocksOf_lt_word (tiled : allocator.Tiled) (tag : Nat) :
    allocator.live.sumBy (blocksOf tag) < word := by
  have counted : allocator.live.size = allocator.live.sumBy (fun _ => 1) := by
    simp [OrderedMap.size, OrderedMap.sumBy]
  refine (sumBy_mono ?_).trans_lt (counted ▸ blocks_lt_word tiled)
  intro offset record _
  unfold blocksOf
  split <;> omega

theorem wordAdd_eq {first second : Nat} (fits : first + second < word) :
    wordAdd first second = first + second := Nat.mod_eq_of_lt fits

theorem wordSub_add {rest amount : Nat} (fits : amount + rest < word) :
    wordSub (amount + rest) amount = rest := by
  unfold wordSub
  rw [show amount + rest + word - amount = rest + word by omega, Nat.add_mod_right]
  exact Nat.mod_eq_of_lt (by omega)

theorem credit_getD (counters : OrderedMap Nat Nat) (tag amount other : Nat)
    (fits : (counters.find? tag).getD 0 + amount < word) :
    ((credit counters tag amount).find? other).getD 0 =
      (if tag = other then amount else 0) + (counters.find? other).getD 0 := by
  unfold credit
  rw [wordAdd_eq fits, OrderedMap.find_insert]
  by_cases same : other = tag
  · subst same
    simp [Nat.add_comm]
  · simp [same, Ne.symm same]

theorem debit_getD (counters : OrderedMap Nat Nat) (tag amount rest other : Nat)
    (held : (counters.find? tag).getD 0 = amount + rest) (fits : amount + rest < word) :
    (if tag = other then amount else 0) + ((debit counters tag amount).find? other).getD 0 =
      (counters.find? other).getD 0 := by
  unfold debit
  cases found : counters.find? tag with
  | none =>
      rw [found] at held
      simp only [Option.getD_none] at held
      by_cases same : tag = other
      · subst same
        simp only [if_true, found, Option.getD_none]
        omega
      · simp [same]
  | some value =>
      rw [found] at held
      simp only [Option.getD_some] at held
      subst held
      simp only [wordSub_add fits]
      by_cases same : tag = other
      · subst same
        by_cases zero : rest = 0 <;> simp [zero, found]
      · by_cases zero : rest = 0 <;>
          simp [zero, same, Ne.symm same, OrderedMap.find_erase, OrderedMap.find_insert]

theorem allocate_accounted {bytes tag : Nat} {block : Block} (tiled : allocator.Tiled)
    (accounted : allocator.Accounted) (fits : bytes + alignment ≤ word)
    (granted : allocator.allocate bytes tag = .ok (block, allocator')) : allocator'.Accounted := by
  have tiled' := allocate_tiled tiled granted
  obtain ⟨offset, _, absent, live, _, _⟩ := allocate_live tiled granted
  obtain ⟨_, _, _, _, _, state⟩ := allocate_ok granted
  have requested : ∀ other record, allocator'.live.find? other = some record →
      record.requestedBytes ≤ record.roundedBytes := by
    intro other record held
    rw [live, OrderedMap.find_insert] at held
    split at held
    · rw [Option.some.injEq] at held
      rw [← held]
      exact le_needed bytes fits
    · exact accounted.requested other record held
  have totals := total_lt_word tiled' requested
  have counts := blocks_lt_word tiled'
  rw [live, OrderedMap.sumBy_insert_of_absent _ _ _ _ absent] at totals
  rw [live, OrderedMap.size_insert_of_absent _ _ _ absent] at counts
  simp only at totals
  refine ⟨requested, ?_, ?_, ?_, ?_⟩
  · rw [live, OrderedMap.sumBy_insert_of_absent _ _ _ _ absent, state]
    simp only [accounted.total]
    rw [wordAdd_eq (by omega), Nat.add_comm]
  · rw [live, OrderedMap.size_insert_of_absent _ _ _ absent, state]
    simp only [accounted.blocks]
    exact wordAdd_eq counts
  · intro other _
    have room := requestedOf_lt_word tiled' tag requested
    rw [live, OrderedMap.sumBy_insert_of_absent _ _ _ _ absent] at room ⊢
    have credited : allocator'.tagBytes = credit allocator.tagBytes tag bytes := by rw [state]
    rw [credited, credit_getD _ _ _ _ ?_, accounted.tagBytes other trivial]
    · simp only [requestedOf]
    · rw [accounted.tagBytes tag trivial]
      simp only [requestedOf, if_true] at room ⊢
      omega
  · intro other _
    have room := blocksOf_lt_word tiled' tag
    rw [live, OrderedMap.sumBy_insert_of_absent _ _ _ _ absent] at room ⊢
    have credited : allocator'.tagBlocks = credit allocator.tagBlocks tag 1 := by rw [state]
    rw [credited, credit_getD _ _ _ _ ?_, accounted.tagBlocks other trivial]
    · simp only [blocksOf]
    · rw [accounted.tagBlocks tag trivial]
      simp only [blocksOf, if_true] at room ⊢
      omega

theorem freed_totals (freed : MemoryAllocator) {offset : Nat} {record : AllocRecord}
    (tiled : allocator.Tiled) (accounted : allocator.AccountedFor tags)
    (held : allocator.live.find? offset = some record)
    (live : freed.live = allocator.live.erase offset)
    (total : freed.totalAllocatedBytes =
      wordSub allocator.totalAllocatedBytes record.requestedBytes)
    (blocks : freed.liveBlockCount = wordSub allocator.liveBlockCount 1) :
    freed.totalAllocatedBytes = freed.live.sumBy (fun entry => entry.2.requestedBytes) ∧
      freed.liveBlockCount = freed.live.size := by
  have totals := total_lt_word tiled accounted.requested
  have counts := blocks_lt_word tiled
  have sum := OrderedMap.sumBy_erase_of_present _ _ _
    (fun entry : Nat × AllocRecord => entry.2.requestedBytes) held
  have size := OrderedMap.size_erase_of_present _ _ _ held
  constructor
  · rw [total, accounted.total, live, sum]
    rw [sum] at totals
    exact wordSub_add totals
  · rw [blocks, accounted.blocks, live, ← size, Nat.add_comm]
    exact wordSub_add (by omega)

theorem release_live {offset size : Nat} {record : AllocRecord} (tiled : allocator.Tiled)
    (held : allocator.live.find? offset = some record) :
    (allocator.release ⟨.arena offset, size⟩).live = allocator.live.erase offset ∧
      (allocator.release ⟨.arena offset, size⟩).arena = allocator.arena ∧
      (allocator.release ⟨.arena offset, size⟩).ignoredReleases = allocator.ignoredReleases ∧
      (allocator.release ⟨.arena offset, size⟩).Tiled ∧
      (allocator.Accounted → (allocator.release ⟨.arena offset, size⟩).Accounted) := by
  have span : allocator.footprint offset = some record.roundedBytes :=
    (footprint_eq_some _ _ _).mpr ⟨record, held, rfl⟩
  have below := tiled.tiling.live_below span
  have positive := tiled.tiling.livePositive offset _ span
  have inside : ¬ offset ≥ allocator.capacityBytes := by omega
  have released : allocator.release ⟨.arena offset, size⟩ =
      { allocator with
        totalAllocatedBytes := wordSub allocator.totalAllocatedBytes record.requestedBytes
        liveBlockCount := wordSub allocator.liveBlockCount 1
        tagBytes := debit allocator.tagBytes record.tag record.requestedBytes
        tagBlocks := debit allocator.tagBlocks record.tag 1
        live := allocator.live.erase offset
        freeByOffset := freeSpan allocator.freeByOffset record.offset record.roundedBytes } := by
    simp only [release, if_neg inside, held]
  rw [released]
  refine ⟨rfl, rfl, rfl, freed_tiled tiled held rfl rfl rfl, ?_⟩
  intro accounted
  have totals := freed_totals
    { allocator with
      totalAllocatedBytes := wordSub allocator.totalAllocatedBytes record.requestedBytes
      liveBlockCount := wordSub allocator.liveBlockCount 1
      live := allocator.live.erase offset } tiled accounted held rfl rfl rfl
  refine ⟨?_, totals.1, totals.2, ?_, ?_⟩
  · intro other kept found
    rw [OrderedMap.find_erase] at found
    split at found
    · cases found
    · exact accounted.requested other kept found
  · intro other _
    have bytes : ∀ tag, (allocator.tagBytes.find? tag).getD 0 =
        requestedOf tag (offset, record) + (allocator.live.erase offset).sumBy (requestedOf tag) :=
      fun tag => (accounted.tagBytes tag trivial).trans
        (OrderedMap.sumBy_erase_of_present _ _ _ _ held)
    have room := requestedOf_lt_word tiled record.tag accounted.requested
    rw [OrderedMap.sumBy_erase_of_present _ _ _ _ held] at room
    have own := bytes record.tag
    simp only [requestedOf, if_true] at own room
    have debited := debit_getD allocator.tagBytes record.tag record.requestedBytes _ other own room
    have here := bytes other
    simp only [requestedOf] at here ⊢
    omega
  · intro other _
    have blocks : ∀ tag, (allocator.tagBlocks.find? tag).getD 0 =
        blocksOf tag (offset, record) + (allocator.live.erase offset).sumBy (blocksOf tag) :=
      fun tag => (accounted.tagBlocks tag trivial).trans
        (OrderedMap.sumBy_erase_of_present _ _ _ _ held)
    have room := blocksOf_lt_word tiled record.tag
    rw [OrderedMap.sumBy_erase_of_present _ _ _ _ held] at room
    have own := blocks record.tag
    simp only [blocksOf, if_true] at own room
    have debited := debit_getD allocator.tagBlocks record.tag 1 _ other own room
    have here := blocks other
    simp only [blocksOf] at here ⊢
    omega

theorem release_mapped (offset size : Nat) :
    allocator.release ⟨.mapped offset, size⟩ = allocator := rfl

/-- What the walk of `release_all` keeps while the blocks of `tag` go. -/
structure Walking (tag : Nat) (start walked : MemoryAllocator) : Prop where
  tiled : walked.Tiled
  accounted : walked.AccountedFor (fun other => other ≠ tag)
  arena : walked.arena = start.arena
  ignored : walked.ignoredReleases = start.ignoredReleases
  capacity : walked.capacityBytes = start.capacityBytes

theorem Walking.start (tiled : allocator.Tiled) (accounted : allocator.Accounted) (tag : Nat) :
    Walking tag allocator allocator :=
  ⟨tiled, ⟨accounted.requested, accounted.total, accounted.blocks,
    fun other _ => accounted.tagBytes other trivial,
    fun other _ => accounted.tagBlocks other trivial⟩, rfl, rfl, rfl⟩

theorem releaseVisited_walking {tag : Nat} {start walked : MemoryAllocator}
    {entry : Nat × AllocRecord} (walking : Walking tag start walked)
    (held : walked.live.find? entry.1 = some entry.2) :
    Walking tag start (releaseVisited tag walked entry) := by
  unfold releaseVisited
  split
  · next same =>
      have totals := freed_totals
        { walked with
          totalAllocatedBytes := wordSub walked.totalAllocatedBytes entry.2.requestedBytes
          liveBlockCount := wordSub walked.liveBlockCount 1
          live := walked.live.erase entry.1 } walking.tiled walking.accounted held rfl rfl rfl
      refine ⟨freed_tiled walking.tiled held rfl rfl rfl,
        ⟨?_, totals.1, totals.2, ?_, ?_⟩, walking.arena, walking.ignored, walking.capacity⟩
      · intro other kept found
        rw [OrderedMap.find_erase] at found
        split at found
        · cases found
        · exact walking.accounted.requested other kept found
      · intro other distinct
        have sum := OrderedMap.sumBy_erase_of_present _ _ _ (requestedOf other) held
        have none : requestedOf other (entry.1, entry.2) = 0 :=
          if_neg (fun equal => distinct (equal.symm.trans same))
        rw [none, Nat.zero_add] at sum
        exact (walking.accounted.tagBytes other distinct).trans sum
      · intro other distinct
        have sum := OrderedMap.sumBy_erase_of_present _ _ _ (blocksOf other) held
        have none : blocksOf other (entry.1, entry.2) = 0 :=
          if_neg (fun equal => distinct (equal.symm.trans same))
        rw [none, Nat.zero_add] at sum
        exact (walking.accounted.tagBlocks other distinct).trans sum
  · exact walking

theorem releaseVisited_live (tag : Nat) (walked : MemoryAllocator) (entry : Nat × AllocRecord)
    (held : walked.live.find? entry.1 = some entry.2) (offset : Nat) :
    (releaseVisited tag walked entry).live.find? offset =
      if offset = entry.1 then (walked.live.find? offset).filter (fun record => record.tag ≠ tag)
      else walked.live.find? offset := by
  unfold releaseVisited
  by_cases here : offset = entry.1
  · subst here
    by_cases same : entry.2.tag = tag <;> simp [same, held, Option.filter]
  · by_cases same : entry.2.tag = tag <;> simp [same, here, OrderedMap.find_erase]

/-- What every visit keeps, the walk keeps. Induction over the entries still to
visit: each is still live when its turn comes. -/
theorem walk_spec {tag : Nat} {kept : MemoryAllocator → Prop}
    (visit : ∀ walked entry, kept walked → walked.live.find? entry.1 = some entry.2 →
      kept (releaseVisited tag walked entry))
    (entries : List (Nat × AllocRecord)) (walked : MemoryAllocator) (holds : kept walked)
    (distinct : (entries.map Prod.fst).Nodup)
    (held : ∀ entry ∈ entries, walked.live.find? entry.1 = some entry.2) :
    kept (entries.foldl (releaseVisited tag) walked) ∧
      ∀ offset, (entries.foldl (releaseVisited tag) walked).live.find? offset =
        if offset ∈ entries.map Prod.fst
        then (walked.live.find? offset).filter (fun record => record.tag ≠ tag)
        else walked.live.find? offset := by
  induction entries generalizing walked with
  | nil => simpa using holds
  | cons entry rest ih =>
      have fresh := (List.nodup_cons.mp distinct).1
      have now := held entry (List.mem_cons_self)
      have step := releaseVisited_live tag walked entry now
      have later : ∀ other ∈ rest, (releaseVisited tag walked entry).live.find? other.1 =
          some other.2 := by
        intro other member
        have apart : other.1 ≠ entry.1 := by
          intro same
          exact fresh (List.mem_map.mpr ⟨other, member, same⟩)
        rw [step, if_neg apart]
        exact held other (List.mem_cons_of_mem _ member)
      obtain ⟨walkedOn, tables⟩ := ih _ (visit walked entry holds now)
        (List.nodup_cons.mp distinct).2 later
      refine ⟨walkedOn, ?_⟩
      intro offset
      rw [List.foldl_cons, tables, step]
      by_cases here : offset = entry.1
      · subst here
        simp only [fresh, if_false, if_true, List.map_cons, List.mem_cons, true_or]
      · simp only [here, if_false, List.map_cons, List.mem_cons, false_or]

/-- `release_all` when the unordered live table is walked in a given order. -/
def releaseAllIn (allocator : MemoryAllocator) (order : List (Nat × AllocRecord)) (tag : Nat) :
    MemoryAllocator :=
  let walked := order.foldl (releaseVisited tag) allocator
  { walked with
    tagBytes := walked.tagBytes.erase tag
    tagBlocks := walked.tagBlocks.erase tag }

theorem releaseAllIn_spec (tiled : allocator.Tiled) (accounted : allocator.Accounted)
    {order : List (Nat × AllocRecord)} (permuted : order.Perm allocator.live.entries) (tag : Nat) :
    (allocator.releaseAllIn order tag).Tiled ∧ (allocator.releaseAllIn order tag).Accounted ∧
      (allocator.releaseAllIn order tag).arena = allocator.arena ∧
      (allocator.releaseAllIn order tag).ignoredReleases = allocator.ignoredReleases ∧
      ∀ offset, (allocator.releaseAllIn order tag).live.find? offset =
        (allocator.live.find? offset).filter (fun record => record.tag ≠ tag) := by
  obtain ⟨walking, tables⟩ := walk_spec
    (fun _ _ walking held => releaseVisited_walking walking held) order allocator
    (Walking.start tiled accounted tag)
    ((permuted.map Prod.fst).nodup_iff.mpr allocator.live.nodup_keys)
    (fun entry member => (OrderedMap.find_eq_some_iff _ _ _).mpr (permuted.mem_iff.mp member))
  have live : ∀ offset,
      (order.foldl (releaseVisited tag) allocator).live.find? offset =
        (allocator.live.find? offset).filter (fun record => record.tag ≠ tag) := by
    intro offset
    rw [tables]
    split
    · rfl
    · next absent =>
        have missing : allocator.live.find? offset = none := by
          refine Option.eq_none_iff_forall_ne_some.mpr ?_
          intro record held
          exact absent ((permuted.map Prod.fst).mem_iff.mpr
            ((OrderedMap.mem_keys_iff _ _).mpr ⟨record, held⟩))
        simp [missing]
  have gone : ∀ measure : Nat × AllocRecord → Nat,
      (∀ entry : Nat × AllocRecord, entry.2.tag ≠ tag → measure entry = 0) →
      (order.foldl (releaseVisited tag) allocator).live.sumBy measure = 0 := by
    intro measure zero
    apply List.sum_eq_zero
    intro value member
    obtain ⟨entry, inside, rfl⟩ := List.mem_map.mp member
    have held := (OrderedMap.find_eq_some_iff _ _ _).mpr inside
    rw [live, Option.filter_eq_some_iff] at held
    exact zero entry (by simpa using held.2)
  refine ⟨⟨walking.tiled.tiling, walking.tiled.coalesced, walking.tiled.freeAligned,
    walking.tiled.liveAligned, walking.tiled.capacityAligned, walking.tiled.capacityBound,
    walking.tiled.offsets⟩, ⟨walking.accounted.requested, walking.accounted.total,
    walking.accounted.blocks, ?_, ?_⟩, walking.arena, walking.ignored, live⟩
  · intro other _
    simp only [releaseAllIn, OrderedMap.find_erase]
    by_cases same : other = tag
    · subst same
      rw [if_pos rfl, gone (requestedOf other) (fun entry distinct => if_neg distinct)]
      rfl
    · rw [if_neg same]
      exact walking.accounted.tagBytes other same
  · intro other _
    simp only [releaseAllIn, OrderedMap.find_erase]
    by_cases same : other = tag
    · subst same
      rw [if_pos rfl, gone (blocksOf other) (fun entry distinct => if_neg distinct)]
      rfl
    · rw [if_neg same]
      exact walking.accounted.tagBlocks other same

theorem releaseAll_spec (tiled : allocator.Tiled) (accounted : allocator.Accounted) (tag : Nat) :
    (allocator.releaseAll tag).Tiled ∧ (allocator.releaseAll tag).Accounted ∧
      (allocator.releaseAll tag).arena = allocator.arena ∧
      (allocator.releaseAll tag).ignoredReleases = allocator.ignoredReleases ∧
      ∀ offset, (allocator.releaseAll tag).live.find? offset =
        (allocator.live.find? offset).filter (fun record => record.tag ≠ tag) :=
  releaseAllIn_spec tiled accounted (List.Perm.refl _) tag

end VectorVault.MemoryAllocator
