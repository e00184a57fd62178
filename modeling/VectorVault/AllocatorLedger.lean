import VectorVault.AllocatorOrder

/-! What the callers of an allocator hold.

The ledger of a run is told from the requests and their answers alone. The live
table has an entry for each grant in it, and nothing else. -/

namespace VectorVault.MemoryAllocator

open Tiling

/-- A block that was handed out, with the size and the tag asked for. -/
structure Grant where
  block : Block
  requested : Nat
  tag : Nat
  deriving DecidableEq

/-- A grant is given back by a release of its address, or of every block of its tag. -/
def noted (allocator : MemoryAllocator) (held : List Grant) : Request → List Grant
  | .allocate bytes tag =>
      match allocator.allocate bytes.toNat tag with
      | .error _ => held
      | .ok (block, _) => ⟨block, bytes.toNat, tag⟩ :: held
  | .release block => held.filter (fun grant => grant.block.data ≠ block.data)
  | .releaseAll tag => held.filter (fun grant => grant.tag ≠ tag)

/-- The blocks granted and not released, after requests to an allocator of which `held` are out. -/
def outstanding (allocator : MemoryAllocator) (held : List Grant) : List Request → List Grant
  | [] => held
  | request :: rest => outstanding (allocator.serve request) (noted allocator held request) rest

/-- The arena that grants take up: whole chunks, one for a grant of zero bytes. -/
def occupied (held : List Grant) : SpanTable :=
  fun offset => (held.find? (fun grant => grant.block.data = .arena offset)).map
    (fun grant => needed grant.requested)

def grantOf (offset : Nat) (record : AllocRecord) : Grant :=
  ⟨⟨.arena offset, record.requestedBytes⟩, record.requestedBytes, record.tag⟩

structure Ledger (allocator : MemoryAllocator) (held : List Grant) : Prop where
  distinct : held.Nodup
  known : ∀ grant, grant ∈ held ↔
    ∃ offset record, allocator.live.find? offset = some record ∧ grant = grantOf offset record
  rounded : ∀ offset record, allocator.live.find? offset = some record →
    record.roundedBytes = needed record.requestedBytes

variable {allocator : MemoryAllocator} {held : List Grant}

theorem new_ledger (capacity : UInt64) (garbage : Nat → UInt8) :
    Ledger (new capacity garbage) [] := by
  refine ⟨List.nodup_nil, ?_, ?_⟩
  · intro grant
    simp [new]
  · intro offset record found
    simp [new] at found

theorem Ledger.allocated (ledger : Ledger allocator held) (tiled : allocator.Tiled)
    {bytes tag : Nat} {block : Block} {after : MemoryAllocator}
    (granted : allocator.allocate bytes tag = .ok (block, after)) :
    Ledger after (⟨block, bytes, tag⟩ :: held) := by
  obtain ⟨offset, isBlock, absent, live, _⟩ := allocate_live tiled granted
  have table : ∀ other, after.live.find? other =
      if other = offset then some ⟨offset, needed bytes, bytes, tag⟩
      else allocator.live.find? other := by
    intro other
    rw [live, OrderedMap.find_insert]
  have fresh : ⟨block, bytes, tag⟩ ∉ held := by
    intro member
    rcases (ledger.known _).mp member with ⟨other, record, found, same⟩
    have address : Pointer.arena offset = Pointer.arena other := by
      rw [isBlock] at same
      exact congrArg (fun grant => grant.block.data) same
    rw [Pointer.arena.inj address, found] at absent
    cases absent
  refine ⟨List.nodup_cons.mpr ⟨fresh, ledger.distinct⟩, ?_, ?_⟩
  · intro grant
    rw [List.mem_cons, ledger.known, isBlock]
    constructor
    · rintro (same | ⟨other, record, found, same⟩)
      · exact ⟨offset, ⟨offset, needed bytes, bytes, tag⟩, by rw [table, if_pos rfl], same⟩
      · have apart : other ≠ offset := by
          intro here
          rw [here, absent] at found
          cases found
        exact ⟨other, record, by rw [table, if_neg apart, found], same⟩
    · rintro ⟨other, record, found, same⟩
      rw [table] at found
      split at found
      · next here =>
          left
          rw [same, here, ← Option.some.inj found]
          rfl
      · exact Or.inr ⟨other, record, found, same⟩
  · intro other record found
    rw [table] at found
    split at found
    · rw [← Option.some.inj found]
    · exact ledger.rounded other record found

theorem Ledger.filtered {after : MemoryAllocator} (ledger : Ledger allocator held)
    {keep : Grant → Bool} (table : ∀ offset, after.live.find? offset =
      (allocator.live.find? offset).filter (fun record => keep (grantOf offset record))) :
    Ledger after (held.filter keep) := by
  refine ⟨ledger.distinct.filter _, ?_, ?_⟩
  · intro grant
    rw [List.mem_filter, ledger.known]
    constructor
    · rintro ⟨⟨offset, record, found, same⟩, stays⟩
      rw [same] at stays
      exact ⟨offset, record, by rw [table, Option.filter_eq_some_iff]; exact ⟨found, stays⟩, same⟩
    · rintro ⟨offset, record, found, same⟩
      rw [table, Option.filter_eq_some_iff] at found
      rw [same]
      exact ⟨⟨offset, record, found.1, rfl⟩, found.2⟩
  · intro offset record found
    rw [table, Option.filter_eq_some_iff] at found
    exact ledger.rounded offset record found.1

theorem releaseAll_table (tiled : allocator.Tiled) (tag offset : Nat) :
    (allocator.releaseAll tag).live.find? offset =
      (allocator.live.find? offset).filter (fun record => record.tag ≠ tag) := by
  have walked := (@walk_spec tag Tiled (fun _ _ kept held => releaseVisited_tiled kept held)
    allocator.live.entries allocator tiled allocator.live.nodup_keys
    (fun entry member => (OrderedMap.find_eq_some_iff _ _ _).mpr member)).2 offset
  rw [releaseAll, walked]
  split
  · rfl
  · next absent =>
      cases found : allocator.live.find? offset with
      | none => rfl
      | some record =>
          have named := (OrderedMap.mem_keys_iff _ _).mpr ⟨record, found⟩
          exact absurd named absent

theorem Ledger.served (ledger : Ledger allocator held) (tiled : allocator.Tiled)
    (request : Request) : Ledger (allocator.serve request) (noted allocator held request) := by
  cases request with
  | allocate bytes tag =>
      cases granted : allocator.allocate bytes.toNat tag with
      | error error =>
          simp only [serve, noted, granted]
          exact ledger
      | ok result =>
          simp only [serve, noted, granted]
          exact ledger.allocated tiled granted
  | release block =>
      apply ledger.filtered
      intro offset
      rw [serve, release_table tiled]
      by_cases named : block.data = .arena offset
      · rw [if_pos named, named]
        cases allocator.live.find? offset <;> simp [grantOf]
      · rw [if_neg named]
        cases allocator.live.find? offset <;> simp [grantOf, Ne.symm named, Option.filter]
  | releaseAll tag =>
      apply ledger.filtered
      intro offset
      exact releaseAll_table tiled tag offset

theorem Ledger.run (ledger : Ledger allocator held) (tiled : allocator.Tiled)
    (requests : List Request) :
    Ledger (requests.foldl serve allocator) (outstanding allocator held requests) := by
  induction requests generalizing allocator held with
  | nil => exact ledger
  | cons request rest ih => exact ih (ledger.served tiled request) (serve_tiled tiled request)

theorem Ledger.occupied_eq (ledger : Ledger allocator held) :
    occupied held = allocator.footprint := by
  funext offset
  cases found : allocator.live.find? offset with
  | none =>
      have unnamed : held.find? (fun grant => grant.block.data = .arena offset) = none := by
        apply List.find?_eq_none.mpr
        intro grant member
        rcases (ledger.known grant).mp member with ⟨other, record, known, same⟩
        rw [same]
        intro here
        rw [Pointer.arena.inj (of_decide_eq_true here), found] at known
        cases known
      rw [occupied, footprint, unnamed, found]
      rfl
  | some record =>
      cases first : held.find? (fun grant => grant.block.data = .arena offset) with
      | none =>
          have member := (ledger.known _).mpr ⟨offset, record, found, rfl⟩
          have unnamed := List.find?_eq_none.mp first _ member
          exact absurd (decide_eq_true rfl) unnamed
      | some grant =>
          rcases (ledger.known grant).mp (List.mem_of_find?_eq_some first) with
            ⟨other, record', known, same⟩
          have here : Pointer.arena other = .arena offset := by
            have named := List.find?_some first
            rw [same] at named
            exact of_decide_eq_true named
          rw [Pointer.arena.inj here, found] at known
          rw [occupied, footprint, first, found, Option.map_some, Option.map_some,
            same, ← Option.some.inj known, ledger.rounded offset record found]
          rfl

theorem Ledger.perm (ledger : Ledger allocator held) :
    held.Perm (allocator.live.entries.map (fun entry => grantOf entry.1 entry.2)) := by
  have nodup : (allocator.live.entries.map (fun entry => grantOf entry.1 entry.2)).Nodup := by
    apply List.Nodup.of_map (fun grant : Grant => grant.block.data)
    rw [List.map_map]
    have addresses := allocator.live.nodup_keys.map
      (f := Pointer.arena) (fun _ _ same => Pointer.arena.inj same)
    rw [OrderedMap.keys, List.map_map] at addresses
    exact addresses
  apply (List.perm_ext_iff_of_nodup ledger.distinct nodup).mpr
  intro grant
  rw [ledger.known, List.mem_map]
  constructor
  · rintro ⟨offset, record, found, same⟩
    exact ⟨(offset, record), (OrderedMap.find_eq_some_iff _ _ _).mp found, same.symm⟩
  · rintro ⟨entry, member, same⟩
    exact ⟨entry.1, entry.2, (OrderedMap.find_eq_some_iff _ _ _).mpr member, same.symm⟩

end VectorVault.MemoryAllocator
