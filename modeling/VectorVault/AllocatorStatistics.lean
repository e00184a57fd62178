import VectorVault.AllocatorLedger

/-! What the statistics report.

They are sums over the blocks granted and not released, whatever was released and
released again, and nothing is ever subtracted from a smaller number. -/

namespace VectorVault.MemoryAllocator

section Sums

theorem sum_single (amount tag : Nat) (tags : List Nat) (distinct : tags.Nodup) :
    (tags.map (fun other => if tag = other then amount else 0)).sum =
      if tag ∈ tags then amount else 0 := by
  induction tags with
  | nil => rfl
  | cons other rest ih =>
      have fresh := (List.nodup_cons.mp distinct).1
      rw [List.map_cons, List.sum_cons, ih (List.nodup_cons.mp distinct).2]
      by_cases here : tag = other
      · rw [here, if_pos rfl, if_neg fresh, if_pos List.mem_cons_self, Nat.add_zero]
      · simp only [here, if_false, Nat.zero_add, List.mem_cons, false_or]

theorem sum_filter (held : List Grant) (tag : Nat) (amount : Grant → Nat) :
    (held.map (fun grant => if grant.tag = tag then amount grant else 0)).sum =
      ((held.filter (fun grant => grant.tag = tag)).map amount).sum := by
  induction held with
  | nil => rfl
  | cons grant rest ih =>
      rw [List.map_cons, List.sum_cons, ih]
      by_cases own : grant.tag = tag
      · rw [List.filter_cons_of_pos (by simp [own]), if_pos own, List.map_cons, List.sum_cons]
      · rw [List.filter_cons_of_neg (by simp [own]), if_neg own, Nat.zero_add]

theorem sum_tags (amount : Grant → Nat) (tags : List Nat) (distinct : tags.Nodup)
    (held : List Grant) (known : ∀ grant ∈ held, grant.tag ∈ tags) :
    (tags.map (fun tag => ((held.filter (fun grant => grant.tag = tag)).map amount).sum)).sum =
      (held.map amount).sum := by
  simp only [← sum_filter]
  induction held with
  | nil => simp
  | cons grant rest ih =>
      have here := sum_single (amount grant) grant.tag tags distinct
      rw [if_pos (known grant List.mem_cons_self)] at here
      simp only [List.map_cons, List.sum_cons, List.sum_map_add]
      rw [here, ih (fun other member => known other (List.mem_cons_of_mem grant member))]

theorem le_sumBy {live : OrderedMap Nat AllocRecord} {offset : Nat} {record : AllocRecord}
    (measure : Nat × AllocRecord → Nat) (held : live.find? offset = some record) :
    measure (offset, record) ≤ live.sumBy measure := by
  rw [OrderedMap.sumBy_erase_of_present _ _ _ measure held]
  exact Nat.le_add_right _ _

end Sums

variable {allocator : MemoryAllocator} {held : List Grant}

/-- The reports agree with the grants that are out. -/
structure Reported (allocator : MemoryAllocator) (held : List Grant) : Prop where
  total : allocator.stats = ⟨(held.map Grant.requested).sum, held.length⟩
  ofTag : ∀ tag, allocator.statsOf tag =
    ⟨((held.filter (fun grant => grant.tag = tag)).map Grant.requested).sum,
      (held.filter (fun grant => grant.tag = tag)).length⟩
  additive : ∀ tags : List Nat, tags.Nodup → (∀ grant ∈ held, grant.tag ∈ tags) →
    (tags.map (fun tag => (allocator.statsOf tag).totalAllocatedBytes)).sum =
        allocator.stats.totalAllocatedBytes ∧
      (tags.map (fun tag => (allocator.statsOf tag).liveBlockCount)).sum =
        allocator.stats.liveBlockCount
  bounded : allocator.stats.totalAllocatedBytes ≤ allocator.capacityBytes

/-- Each subtraction of `release` and of `release_all` is from a number that is large
enough. The walk of `release_all` may come to the blocks in any order. -/
structure Subtracts (allocator : MemoryAllocator) : Prop where
  release : ∀ offset record, allocator.live.find? offset = some record →
    record.requestedBytes ≤ allocator.totalAllocatedBytes ∧ 1 ≤ allocator.liveBlockCount ∧
      (∀ value, allocator.tagBytes.find? record.tag = some value →
        record.requestedBytes ≤ value) ∧
      ∀ value, allocator.tagBlocks.find? record.tag = some value → 1 ≤ value
  walk : ∀ (tag : Nat) (visited rest : List (Nat × AllocRecord)) (entry : Nat × AllocRecord),
    (visited ++ entry :: rest).Perm allocator.live.entries →
      entry.2.requestedBytes ≤
          (visited.foldl (releaseVisited tag) allocator).totalAllocatedBytes ∧
        1 ≤ (visited.foldl (releaseVisited tag) allocator).liveBlockCount

theorem Ledger.sumBy (ledger : Ledger allocator held) (amount : Grant → Nat) :
    allocator.live.sumBy (fun entry => amount (grantOf entry.1 entry.2)) =
      (held.map amount).sum := by
  rw [(ledger.perm.map amount).sum_eq, List.map_map]
  rfl

theorem Ledger.reported (ledger : Ledger allocator held) (tiled : allocator.Tiled)
    (accounted : allocator.Accounted) : allocator.Reported held := by
  have counts : ∀ grants : List Grant, (grants.map (fun _ => 1)).sum = grants.length := by
    intro grants
    simp
  have total : allocator.stats = ⟨(held.map Grant.requested).sum, held.length⟩ := by
    have blocks : allocator.live.size = held.length := by
      rw [ledger.perm.length_eq, List.length_map]
      rfl
    rw [accounted.stats, blocks, ← ledger.sumBy Grant.requested]
    rfl
  have ofTag : ∀ tag, allocator.statsOf tag =
      ⟨((held.filter (fun grant => grant.tag = tag)).map Grant.requested).sum,
        (held.filter (fun grant => grant.tag = tag)).length⟩ := by
    intro tag
    rw [accounted.statsOf tag, ← counts, ← sum_filter held tag Grant.requested,
      ← sum_filter held tag (fun _ => 1), ← ledger.sumBy, ← ledger.sumBy]
    rfl
  refine ⟨total, ofTag, ?_, ?_⟩
  · intro tags distinct known
    have bytes := sum_tags Grant.requested tags distinct held known
    have blocks := sum_tags (fun _ => 1) tags distinct held known
    simp only [counts] at blocks
    simp only [ofTag, total]
    exact ⟨bytes, blocks⟩
  · calc
      _ = allocator.live.sumBy (fun entry => entry.2.requestedBytes) := accounted.total
      _ ≤ allocator.live.sumBy (fun entry => entry.2.roundedBytes) :=
        sumBy_mono accounted.requested
      _ ≤ allocator.capacityBytes := rounded_le_capacity tiled

theorem Accounted.subtracts (tiled : allocator.Tiled) (accounted : allocator.Accounted) :
    allocator.Subtracts := by
  constructor
  · intro offset record held
    refine ⟨?_, ?_, ?_, ?_⟩
    · rw [accounted.total]
      exact le_sumBy (fun entry => entry.2.requestedBytes) held
    · have size := OrderedMap.size_erase_of_present _ _ _ held
      rw [accounted.blocks]
      omega
    · intro value found
      have sum := accounted.tagBytes record.tag trivial
      have part := le_sumBy (requestedOf record.tag) held
      rw [found, Option.getD_some] at sum
      simp only [requestedOf, if_true] at part sum
      omega
    · intro value found
      have sum := accounted.tagBlocks record.tag trivial
      have part := le_sumBy (blocksOf record.tag) held
      rw [found, Option.getD_some] at sum
      simp only [blocksOf, if_true] at part sum
      omega
  · intro tag visited rest entry permuted
    have distinct : ((visited ++ entry :: rest).map Prod.fst).Nodup :=
      (permuted.map Prod.fst).nodup_iff.mpr allocator.live.nodup_keys
    have held : ∀ other ∈ visited ++ entry :: rest,
        allocator.live.find? other.1 = some other.2 :=
      fun other member => (OrderedMap.find_eq_some_iff _ _ _).mpr (permuted.mem_iff.mp member)
    rw [List.map_append, List.map_cons] at distinct
    have apart := List.nodup_append.mp distinct
    obtain ⟨walking, table⟩ := walk_spec
      (fun _ _ walking held => releaseVisited_walking walking held) visited allocator
      (Walking.start tiled accounted tag) apart.1
      (fun other member => held other (List.mem_append_left _ member))
    have fresh : entry.1 ∉ visited.map Prod.fst :=
      fun member => apart.2.2 entry.1 member entry.1 List.mem_cons_self rfl
    have still : (visited.foldl (releaseVisited tag) allocator).live.find? entry.1 =
        some entry.2 := by
      rw [table, if_neg fresh]
      exact held entry (List.mem_append_right _ List.mem_cons_self)
    constructor
    · rw [walking.accounted.total]
      exact le_sumBy (fun other => other.2.requestedBytes) still
    · have size := OrderedMap.size_erase_of_present _ _ _ still
      rw [walking.accounted.blocks]
      omega

theorem run_reported (capacity : UInt64) (garbage : Nat → UInt8) {requests : List Request}
    (unwrapped : ∀ request ∈ requests, request.Unwrapped) :
    (requests.foldl serve (new capacity garbage)).Reported
        (outstanding (new capacity garbage) [] requests) ∧
      (requests.foldl serve (new capacity garbage)).Subtracts := by
  obtain ⟨tiled, accounted⟩ := run_accounted capacity garbage unwrapped
  have ledger := (new_ledger capacity garbage).run (new_tiled capacity garbage) requests
  exact ⟨ledger.reported tiled accounted, accounted.subtracts tiled⟩

/-- The empty block at 0 stays out; the other is released twice, and in passing a foreign
address and null. -/
theorem run_reported_of_double_release :
    ([.allocate 0 1, .allocate 100 1, .release ⟨.arena 64, 100⟩, .release ⟨.arena 64, 100⟩,
        .release ⟨.arena 3, 1⟩, .release ⟨.null, 0⟩, .allocate 70 2, .allocate 5 3,
        .releaseAll 3].foldl serve (new 512 (fun _ => 0))).Reported
      [⟨⟨.arena 64, 70⟩, 70, 2⟩, ⟨⟨.arena 0, 0⟩, 0, 1⟩] ∧
    ([.allocate 0 1, .allocate 100 1, .release ⟨.arena 64, 100⟩, .release ⟨.arena 64, 100⟩,
        .release ⟨.arena 3, 1⟩, .release ⟨.null, 0⟩, .allocate 70 2, .allocate 5 3,
        .releaseAll 3].foldl serve (new 512 (fun _ => 0))).Subtracts := by
  have out : outstanding (new 512 (fun _ => 0)) [] [.allocate 0 1, .allocate 100 1,
      .release ⟨.arena 64, 100⟩, .release ⟨.arena 64, 100⟩, .release ⟨.arena 3, 1⟩,
      .release ⟨.null, 0⟩, .allocate 70 2, .allocate 5 3, .releaseAll 3] =
        [⟨⟨.arena 64, 70⟩, 70, 2⟩, ⟨⟨.arena 0, 0⟩, 0, 1⟩] := by decide
  have served := @run_reported 512 (fun _ => 0) [.allocate 0 1, .allocate 100 1,
    .release ⟨.arena 64, 100⟩, .release ⟨.arena 64, 100⟩, .release ⟨.arena 3, 1⟩,
    .release ⟨.null, 0⟩, .allocate 70 2, .allocate 5 3, .releaseAll 3] (by decide)
  rw [out] at served
  exact served

end VectorVault.MemoryAllocator
