import VectorVault.AllocatorLedger

/-! First fit among the gaps that the blocks granted and not released leave.

A request is granted at the start of the lowest gap that holds its rounded size
and refused when there is none. The bytes it is told it has are its own unless
the rounding wrapped. -/

namespace VectorVault.MemoryAllocator

open Tiling

variable {allocator allocated : MemoryAllocator} {held : List Grant} {bytes tag : Nat}
  {block : Block}

theorem Ledger.free_iff_gap (ledger : Ledger allocator held) (tiled : allocator.Tiled)
    {offset length : Nat} : allocator.freeByOffset.find? offset = some length ↔
      Gap allocator.capacityBytes (occupied held) offset length := by
  rw [ledger.occupied_eq]
  exact tiled.tiling.free_iff_gap tiled.coalesced offset length

theorem needed_eq (fits : bytes + (alignment - 1) < word) :
    needed bytes = max alignment ((bytes + (alignment - 1)) / alignment * alignment) := by
  have rounded : roundUp bytes = (bytes + (alignment - 1)) / alignment * alignment := by
    rw [roundUp, wordAdd_eq fits]
  unfold needed
  rw [rounded]
  split
  · next zero => rw [zero, Nat.max_zero]
  · simp only [alignment] at *
    omega

theorem allocate_error {error : Error} (refused : allocator.allocate bytes tag = .error error) :
    error.category = .allocationFailure ∧
      ∀ offset length, allocator.freeByOffset.find? offset = some length → length < needed bytes := by
  unfold allocate at refused
  split at refused
  · next none =>
      cases refused
      refine ⟨rfl, ?_⟩
      intro offset length held
      have short := List.find?_eq_none.mp none (offset, length)
        ((OrderedMap.find_eq_some_iff _ _ _).mp held)
      simpa using short
  · cases refused

theorem allocate_first (granted : allocator.allocate bytes tag = .ok (block, allocated)) :
    ∃ offset span, block = ⟨.arena offset, bytes⟩ ∧
      allocator.freeByOffset.find? offset = some span ∧ needed bytes ≤ span ∧
      ∀ other length, allocator.freeByOffset.find? other = some length → needed bytes ≤ length →
        offset ≤ other := by
  unfold allocate at granted
  split at granted
  · cases granted
  · next offset span fit =>
      simp only [Except.ok.injEq, Prod.mk.injEq] at granted
      obtain ⟨large, front, back, isEntries, short⟩ := List.find?_eq_some_iff_append.mp fit
      have sorted := allocator.freeByOffset.sorted
      rw [isEntries] at sorted
      refine ⟨offset, span, granted.1.symm, ?_, by simpa using large, ?_⟩
      · rw [OrderedMap.find_eq_some_iff, isEntries]
        simp
      · intro other length held enough
        have member := (OrderedMap.find_eq_some_iff _ _ _).mp held
        rw [isEntries] at member
        rcases List.mem_append.mp member with before | here
        · have tooShort := short _ before
          simp only [Bool.not_eq_true', decide_eq_false_iff_not] at tooShort
          omega
        · rcases List.mem_cons.mp here with same | after
          · exact le_of_eq (congrArg Prod.fst same).symm
          · have later := (List.pairwise_append.mp sorted).2.1
            exact le_of_lt ((List.pairwise_cons.mp later).1 _ after)

section FirstFit

/-- How `allocate` serves a request of a rounded size while its callers hold the grants `held`. -/
structure FirstFit (allocator : MemoryAllocator) (held : List Grant) (bytes : UInt64)
    (tag rounded : Nat) : Prop where
  refused_iff : (∃ error, allocator.allocate bytes.toNat tag = .error error) ↔
    ∀ offset length, Gap allocator.capacityBytes (occupied held) offset length → length < rounded
  granted : ∀ block allocated, allocator.allocate bytes.toNat tag = .ok (block, allocated) →
    ∃ offset length, block = ⟨.arena offset, bytes.toNat⟩ ∧
      Gap allocator.capacityBytes (occupied held) offset length ∧ rounded ≤ length ∧
      ∀ other size, Gap allocator.capacityBytes (occupied held) other size → rounded ≤ size →
        offset ≤ other
  unchanged : ∀ error, allocator.allocate bytes.toNat tag = .error error →
    error.category = .allocationFailure ∧ allocator.serve (.allocate bytes tag) = allocator

theorem Tiled.firstFit (tiled : allocator.Tiled) (ledger : Ledger allocator held) {bytes : UInt64}
    (unwrapped : Unwrapped bytes) (tag : Nat) : FirstFit allocator held bytes tag
      (max alignment ((bytes.toNat + (alignment - 1)) / alignment * alignment)) := by
  rw [← needed_eq unwrapped]
  refine ⟨⟨?_, ?_⟩, ?_, ?_⟩
  · intro refused offset length gap
    rcases refused with ⟨error, refused⟩
    exact (allocate_error refused).2 offset length ((ledger.free_iff_gap tiled).mpr gap)
  · intro short
    cases outcome : allocator.allocate bytes.toNat tag with
    | error error => exact ⟨error, rfl⟩
    | ok result =>
        obtain ⟨offset, span, _, free, enough, _⟩ := allocate_first outcome
        have less := short offset span ((ledger.free_iff_gap tiled).mp free)
        omega
  · intro block allocated granted
    obtain ⟨offset, span, isBlock, free, enough, first⟩ := allocate_first granted
    refine ⟨offset, span, isBlock, (ledger.free_iff_gap tiled).mp free, enough, ?_⟩
    intro other size gap long
    exact first other size ((ledger.free_iff_gap tiled).mpr gap) long
  · intro error refused
    refine ⟨(allocate_error refused).1, ?_⟩
    simp only [serve, refused]

theorem run_firstFit (capacity : UInt64) (garbage : Nat → UInt8) (requests : List Request)
    {bytes : UInt64} (unwrapped : Unwrapped bytes) (tag : Nat) :
    FirstFit (requests.foldl serve (new capacity garbage))
      (outstanding (new capacity garbage) [] requests) bytes tag
      (max alignment ((bytes.toNat + (alignment - 1)) / alignment * alignment)) := by
  have tiled := new_tiled capacity garbage
  exact (serves_tiled tiled requests).firstFit ((new_ledger capacity garbage).run tiled requests)
    unwrapped tag

theorem run_firstFit_of_hole :
    FirstFit ([.allocate 64 1, .allocate 100 2, .allocate 0 1, .releaseAll 2].foldl serve
        (new 256 (fun _ => 0)))
      (outstanding (new 256 (fun _ => 0)) []
        [.allocate 64 1, .allocate 100 2, .allocate 0 1, .releaseAll 2])
      65 3 (max 64 ((65 + 63) / 64 * 64)) :=
  run_firstFit 256 (fun _ => 0) [.allocate 64 1, .allocate 100 2, .allocate 0 1, .releaseAll 2]
    (show Unwrapped 65 by decide) 3

end FirstFit

section Advertised

/-- What a caller of `allocate` is told while the grants `held` are out: the bytes of a
granted block lie in the arena on a multiple of the alignment, apart from those told of
every block held. What no gap between these holds is refused. -/
structure Advertised (allocator : MemoryAllocator) (held : List Grant) (bytes : UInt64)
    (tag : Nat) : Prop where
  granted : ∀ block allocated, allocator.allocate bytes.toNat tag = .ok (block, allocated) →
    ∃ offset, block = ⟨.arena offset, bytes.toNat⟩ ∧ alignment ∣ offset ∧
      offset + bytes.toNat ≤ allocator.capacityBytes ∧
      ∀ grant ∈ held, ∃ other, grant.block.data = .arena other ∧
        (offset + bytes.toNat ≤ other ∨ other + grant.block.size ≤ offset)
  refused : (∀ offset length, Gap allocator.capacityBytes (occupied held) offset length →
      length < bytes.toNat) →
    ∃ error, allocator.allocate bytes.toNat tag = .error error ∧
      error.category = .allocationFailure

/-- Some chunk of the arena is in no grant. -/
def HasRoom (allocator : MemoryAllocator) (held : List Grant) : Prop :=
  ∃ offset length, Gap allocator.capacityBytes (occupied held) offset length

theorem advertised_of_unwrapped (tiled : allocator.Tiled) (accounted : allocator.Accounted)
    (ledger : Ledger allocator held) {bytes : UInt64} (unwrapped : Unwrapped bytes) (tag : Nat) :
    Advertised allocator held bytes tag := by
  have enough : bytes.toNat ≤ needed bytes.toNat := le_needed bytes.toNat unwrapped
  constructor
  · intro block allocated granted
    obtain ⟨offset, span, isBlock, free, fits, _⟩ := allocate_first granted
    have inside := tiled.tiling.free_below free
    refine ⟨offset, isBlock, (tiled.freeAligned offset span free).1, by omega, ?_⟩
    intro grant member
    rcases (ledger.known grant).mp member with ⟨other, record, live, same⟩
    have requested := accounted.requested other record live
    have apart := tiled.tiling.crossApart offset span other record.roundedBytes free
      ((footprint_eq_some _ _ _).mpr ⟨record, live, rfl⟩)
    refine ⟨other, by rw [same]; rfl, ?_⟩
    have size : grant.block.size = record.requestedBytes := by rw [same]; rfl
    omega
  · intro short
    cases outcome : allocator.allocate bytes.toNat tag with
    | error error => exact ⟨error, rfl, (allocate_error outcome).1⟩
    | ok result =>
        obtain ⟨offset, span, _, free, fits, _⟩ := allocate_first outcome
        have less := short offset span ((ledger.free_iff_gap tiled).mp free)
        omega

theorem needed_wrapped {bytes : UInt64} (wrapped : ¬ Unwrapped bytes) :
    needed bytes.toNat = alignment := by
  have bound := bytes.toNat_lt
  simp only [Unwrapped, alignment, word] at wrapped
  have zero : roundUp bytes.toNat = 0 := by
    unfold roundUp wordAdd
    simp only [alignment, word]
    omega
  rw [needed, if_pos zero]

theorem not_advertised_of_wrapped (tiled : allocator.Tiled) (ledger : Ledger allocator held)
    {bytes : UInt64} (wrapped : ¬ Unwrapped bytes) (room : HasRoom allocator held) (tag : Nat) :
    ¬ Advertised allocator held bytes tag := by
  intro advertised
  rcases room with ⟨offset, length, gap⟩
  have free := (ledger.free_iff_gap tiled).mpr gap
  have chunk : alignment ≤ length :=
    Nat.le_of_dvd gap.positive (tiled.freeAligned offset length free).2
  cases outcome : allocator.allocate bytes.toNat tag with
  | error error =>
      have short := (allocate_error outcome).2 offset length free
      rw [needed_wrapped wrapped] at short
      omega
  | ok result =>
      obtain ⟨start, _, _, inside, _⟩ := advertised.granted result.1 result.2 outcome
      have capacity := tiled.capacityBound
      have aligned := tiled.capacityAligned
      simp only [Unwrapped, alignment, word] at wrapped capacity aligned
      omega

/-- In a run whose sizes do not wrap, a request is served as advertised unless its own
size wraps while there is room. -/
theorem run_advertised_iff (capacity : UInt64) (garbage : Nat → UInt8) {requests : List Request}
    (unwrapped : ∀ request ∈ requests, request.Unwrapped) (bytes : UInt64) (tag : Nat) :
    Advertised (requests.foldl serve (new capacity garbage))
        (outstanding (new capacity garbage) [] requests) bytes tag ↔
      (Unwrapped bytes ∨ ¬ HasRoom (requests.foldl serve (new capacity garbage))
        (outstanding (new capacity garbage) [] requests)) := by
  obtain ⟨tiled, accounted⟩ := run_accounted capacity garbage unwrapped
  have ledger := (new_ledger capacity garbage).run (new_tiled capacity garbage) requests
  constructor
  · intro advertised
    by_cases fits : Unwrapped bytes
    · exact Or.inl fits
    · exact Or.inr (fun room =>
        not_advertised_of_wrapped tiled ledger fits room tag advertised)
  · intro either
    rcases either with fits | full
    · exact advertised_of_unwrapped tiled accounted ledger fits tag
    · by_cases fits : Unwrapped bytes
      · exact advertised_of_unwrapped tiled accounted ledger fits tag
      · constructor
        · intro block allocated granted
          obtain ⟨offset, span, _, free, _⟩ := allocate_first granted
          exact absurd ⟨offset, span, (ledger.free_iff_gap tiled).mp free⟩ full
        · intro _
          cases outcome : (requests.foldl serve (new capacity garbage)).allocate bytes.toNat tag with
          | error error => exact ⟨error, rfl, (allocate_error outcome).1⟩
          | ok result =>
              obtain ⟨offset, span, _, free, _⟩ := allocate_first outcome
              exact absurd ⟨offset, span, (ledger.free_iff_gap tiled).mp free⟩ full

theorem run_advertised_iff_of_two_blocks :
    Advertised ([.allocate 64 1, .allocate 1 2, .release ⟨.arena 0, 64⟩, .allocate 9 3].foldl serve
        (new 256 (fun _ => 0))) [⟨⟨.arena 0, 9⟩, 9, 3⟩, ⟨⟨.arena 64, 1⟩, 1, 2⟩] 65 3 ↔
      (Unwrapped 65 ∨ ¬ HasRoom ([.allocate 64 1, .allocate 1 2, .release ⟨.arena 0, 64⟩,
        .allocate 9 3].foldl serve (new 256 (fun _ => 0)))
          [⟨⟨.arena 0, 9⟩, 9, 3⟩, ⟨⟨.arena 64, 1⟩, 1, 2⟩]) := by
  have out : outstanding (new 256 (fun _ => 0)) []
      [.allocate 64 1, .allocate 1 2, .release ⟨.arena 0, 64⟩, .allocate 9 3] =
        [⟨⟨.arena 0, 9⟩, 9, 3⟩, ⟨⟨.arena 64, 1⟩, 1, 2⟩] := by decide
  have served := @run_advertised_iff 256 (fun _ => 0)
    [.allocate 64 1, .allocate 1 2, .release ⟨.arena 0, 64⟩, .allocate 9 3] (by decide) 65 3
  rw [out] at served
  exact served

theorem wrapped_size_not_advertised :
    ¬ ∀ (capacity : UInt64) (garbage : Nat → UInt8) (requests : List Request) (bytes : UInt64)
      (tag : Nat), Advertised (requests.foldl serve (new capacity garbage))
        (outstanding (new capacity garbage) [] requests) bytes tag := by
  intro all
  have granted : ((new 64 (fun _ => 0)).allocate (0xFFFFFFFFFFFFFFFF : UInt64).toNat 1).isOk =
      true := by decide
  obtain ⟨⟨block, allocated⟩, outcome⟩ := ok_of_isOk granted
  obtain ⟨offset, _, _, inside, _⟩ :=
    (all 64 (fun _ => 0) [] 0xFFFFFFFFFFFFFFFF 1).granted block allocated outcome
  have capacity : (new 64 (fun _ => 0)).capacityBytes = 64 := by decide
  rw [List.foldl_nil, capacity] at inside
  have size : (0xFFFFFFFFFFFFFFFF : UInt64).toNat = 2 ^ 64 - 1 := rfl
  omega

end Advertised

end VectorVault.MemoryAllocator
