import VectorVault.IndexUpdates
import VectorVault.IvfSettled

/-! Live records of an inverted-file index overwritten in place.

A vector put under a live identifier leaves the slots in their order, and so the
shuffle draws the same records as before. -/

namespace VectorVault.IvfIndex

open FloatOrder

section Alike

variable {D : Type} [LinearOrder D] [OrderTop D] (host : Host D) {one other : IvfIndex}

def SameAnswer (one other : IvfIndex) (q : List F32) (k : UInt32) (query : QueryParams) : Prop :=
  ∃ candidates after after', one.search host q k query = .ok (candidates, after) ∧
    other.search host q k query = .ok (candidates, after')

theorem search_idle (index : IvfIndex) (q : List F32) {k : UInt32} (query : QueryParams)
    (idle : k = 0 ∨ index.liveCount = 0) : index.search host q k query = .ok ([], index) := by
  rw [IvfIndex.search, if_pos idle]
  rfl

theorem search_same_exhaustive (kept : one.Kept host) (kept' : other.Kept host)
    (settings : one.settings = other.settings)
    (same : ∀ id, one.roster.vectorOf id = other.roster.vectorOf id) (q : List F32) (k : UInt32)
    {query : QueryParams}
    (enough : one.cellCount one.liveEntries.length ≤ max 1 query.nprobe.toNat) :
    SameAnswer host one other q k query := by
  have permuted := liveEntries_perm kept.wellFormed kept'.wellFormed same
  have sameCount := liveCount_same kept.wellFormed kept'.wellFormed same
  have nlist : one.requestedNlist = other.requestedNlist :=
    congrArg (fun parts => parts.2.2.1) settings
  have metric : one.metric = other.metric := congrArg (fun parts => parts.2.1) settings
  have enough' : other.cellCount other.liveEntries.length ≤ max 1 query.nprobe.toNat := by
    rw [cellCount, ← nlist, ← permuted.length_eq]
    exact enough
  by_cases idle : k = 0 ∨ one.liveCount = 0
  · have idle' := idle
    rw [sameCount] at idle'
    exact ⟨[], one, other, search_idle host one q query idle,
      search_idle host other q query idle'⟩
  · have bounded : ∀ {index : IvfIndex}, index.Kept host → index.liveCount ≠ 0 →
        index.cellCount index.liveEntries.length ≤ max 1 query.nprobe.toNat →
        ∀ built, index.ensurePartitionsBuilt host = .ok built →
          built.centroids.length ≤ max 1 query.nprobe.toNat := by
      intro index kept some_ cells built ensured
      rcases kept.partitioned host some_ with ⟨built', _, _, ensured', clustered, _, length, _⟩
      rw [ensured] at ensured'
      rw [Except.ok.inj ensured', clustered.settled, length, length_drawn]
      exact (min_le_left _ _).trans cells
    have some_ : one.liveCount ≠ 0 := fun none => idle (Or.inr none)
    have wanted : k ≠ 0 := fun none => idle (Or.inl none)
    have some' : other.liveCount ≠ 0 := by
      rw [← sameCount]
      exact some_
    rcases kept.search_exhaustive host q wanted some_ (bounded kept some_ enough) with
      ⟨after, searched⟩
    rcases kept'.search_exhaustive host q wanted some' (bounded kept' some' enough') with
      ⟨after', searched'⟩
    have scores : (one.scored host q).Perm (other.scored host q) := by
      rw [scored, scored, metric]
      exact permuted.map _
    rw [sortBy_eq_of_perm HnswIndex.candidateLt candidateRank candidateLt_iff
      candidateRank_injective scores] at searched
    exact ⟨_, after, after', searched, searched'⟩

end Alike

section Overwrites

/-- The identifiers of the live records in the order of their slots. -/
def liveIds (index : IvfIndex) : List RecordId := index.liveEntries.map IvfEntry.id

/-- The identifiers whose vectors the centroids start from. -/
def drawnIds {D : Type} (host : Host D) (index : IvfIndex) : List RecordId :=
  (index.drawn host).map IvfEntry.id

def Overwrites (index : IvfIndex) (records : List (RecordId × List F32)) : Prop :=
  ∀ record ∈ records, record.1 ∈ index.liveIds ∧ record.2.length = index.dimensionality.toNat

variable {D : Type} {host : Host D} {index after : IvfIndex}

theorem liveIds_set {entries : List IvfEntry} {slot : Nat} {held new : IvfEntry}
    (found : entries[slot]? = some held) (id : new.id = held.id)
    (deleted : new.deleted = held.deleted) :
    ((entries.set slot new).filter (fun entry => !entry.deleted)).map IvfEntry.id =
      (entries.filter (fun entry => !entry.deleted)).map IvfEntry.id := by
  rcases List.getElem?_eq_some_iff.mp found with ⟨inside, isHeld⟩
  have shape : ∀ items : List IvfEntry,
      (items.filter (fun entry => !entry.deleted)).map IvfEntry.id =
        ((items.map (fun entry => (entry.id, entry.deleted))).filter
          (fun pair => !pair.2)).map Prod.fst := by
    intro items
    rw [List.filter_map, List.map_map]
    rfl
  have same : (entries.set slot new).map (fun entry => (entry.id, entry.deleted)) =
      entries.map (fun entry => (entry.id, entry.deleted)) := by
    rw [List.map_set, id, deleted, ← isHeld]
    have inside' : slot < (entries.map (fun entry => (entry.id, entry.deleted))).length := by
      rw [List.length_map]
      exact inside
    have kept := List.set_getElem_self inside'
    rw [List.getElem_map] at kept
    exact kept
  rw [shape, shape, same]

theorem mem_liveIds_iff (wellFormed : index.WellFormed) (id : RecordId) :
    id ∈ index.liveIds ↔ ∃ vec, index.roster.vectorOf id = some vec := by
  rw [liveIds, List.mem_map]
  constructor
  · rintro ⟨entry, member, isId⟩
    rcases List.mem_filter.mp member with ⟨inside, live⟩
    exact ⟨entry.vector, (wellFormed.sound.vectorOf_iff id _).mpr
      ⟨entry, inside, isId, by simpa using live, rfl⟩⟩
  · rintro ⟨vec, known⟩
    rcases (wellFormed.sound.vectorOf_iff id vec).mp known with ⟨entry, inside, isId, live, _⟩
    exact ⟨entry, List.mem_filter.mpr ⟨inside, by simp [live]⟩, isId⟩

theorem add_liveIds (wellFormed : index.WellFormed) {status : Status} {id : RecordId}
    {vec : List F32} (live : id ∈ index.liveIds) (added : index.add id vec = .ok (status, after)) :
    after.liveIds = index.liveIds := by
  rcases (mem_liveIds_iff wellFormed id).mp live with ⟨old, known⟩
  rcases Option.bind_eq_some_iff.mp known with ⟨slot, found, alive⟩
  rcases held_of wellFormed found with ⟨held, inside, _⟩
  have live_ : held.deleted = false := by
    have inside_ : index.roster.entries[slot]? = some held := inside
    rw [inside_, Option.bind_some] at alive
    by_contra gone
    rw [if_pos (Bool.eq_true_of_not_eq_false gone)] at alive
    cases alive
  cases rejected : HnswIndex.rejectAdd index.dimensionality id vec with
  | some error =>
      simp only [IvfIndex.add, rejected] at added
      cases added
      rfl
  | none =>
      have isSlot : index.idToIndex.find? id = some slot := found
      simp only [IvfIndex.add, rejected, isSlot, access, inside] at added
      cases added
      exact liveIds_set inside rfl live_.symm

theorem Reached.named [FloatOrder D] {dimensionality : UInt32} {metric : DistanceMetric}
    {params : IndexParams} (reached : Reached host dimensionality metric params index) :
    ∀ id ∈ index.liveIds, id ≠ [] := by
  have all : ∀ entry ∈ index.entries, entry.id ≠ [] := by
    induction reached with
    | new => exact fun _ member => absurd member List.not_mem_nil
    | @add index after status id vec _ added ih =>
        cases rejected : HnswIndex.rejectAdd index.dimensionality id vec with
        | some error =>
            simp only [IvfIndex.add, rejected] at added
            cases added
            exact ih
        | none =>
            have named : id ≠ [] := by
              intro empty
              rw [HnswIndex.rejectAdd, if_pos empty] at rejected
              cases rejected
            simp only [IvfIndex.add, rejected] at added
            split at added
            · rcases bind_ok added with ⟨held, found, result⟩
              cases result
              intro entry member
              rcases List.mem_or_eq_of_mem_set member with old | new
              · exact ih entry old
              · rw [new]
                exact ih held (List.mem_of_getElem? (HnswIndex.access_ok found))
            · cases added
              intro entry member
              rcases List.mem_append.mp member with old | new
              · exact ih entry old
              · rw [List.mem_singleton.mp new]
                exact named
    | @remove index after status id _ removed ih =>
        simp only [IvfIndex.remove] at removed
        split at removed
        · cases removed
          exact ih
        · rcases bind_ok removed with ⟨held, found, result⟩
          split at result
          · cases result
            exact ih
          · cases result
            intro entry member
            rcases List.mem_or_eq_of_mem_set member with old | new
            · exact ih entry old
            · rw [new]
              exact ih held (List.mem_of_getElem? (HnswIndex.access_ok found))
    | @search index after candidates q k query _ searched ih =>
        have entries : after.entries = index.entries :=
          congrArg Roster.entries (search_rest host searched).1
        rw [entries]
        exact ih
  intro id member
  rcases List.mem_map.mp member with ⟨entry, inside, isId⟩
  rw [← isId]
  exact all entry (List.mem_filter.mp inside).1

theorem addAll_liveIds [FloatOrder D] {dimensionality : UInt32} {metric : DistanceMetric}
    {params : IndexParams} (reached : Reached host dimensionality metric params index)
    {records : List (RecordId × List F32)} (live : ∀ record ∈ records, record.1 ∈ index.liveIds)
    (done : index.addAll records = .ok after) : after.liveIds = index.liveIds := by
  induction records generalizing index with
  | nil =>
      cases done
      rfl
  | cons record rest ih =>
      rcases bind_ok done with ⟨⟨status, next⟩, added, later⟩
      have kept :=
        add_liveIds (reached.kept host).1.wellFormed (live record List.mem_cons_self) added
      rw [← kept]
      apply ih (reached.add record.1 record.2 added) _ later
      intro other member
      rw [kept]
      exact live other (List.mem_cons_of_mem record member)

theorem Reached.overwritten [FloatOrder D] {dimensionality : UInt32} {metric : DistanceMetric}
    {params : IndexParams} (reached : Reached host dimensionality metric params index)
    {records : List (RecordId × List F32)} (valid : index.Overwrites records) :
    ∃ after, index.addAll records = .ok after ∧
      Reached host dimensionality metric params after ∧ after.liveIds = index.liveIds ∧
      ∀ id, after.roster.vectorOf id = vectorsAfter index.roster.vectorOf records id := by
  have isDimensionality : index.dimensionality = dimensionality :=
    congrArg Prod.fst (reached.kept host).2
  rcases addAll_reached reached records (by
    intro record member
    rw [← isDimensionality]
    exact ⟨reached.named record.1 (valid record member).1, (valid record member).2⟩) with
    ⟨after, done, reachedAfter, table⟩
  exact ⟨after, done, reachedAfter,
    addAll_liveIds reached (fun record member => (valid record member).1) done, table⟩

theorem drawnIds_eq (index : IvfIndex) :
    index.drawnIds host = ((host.shuffled index.seed index.liveIds.length).take
      (index.cellCount index.liveIds.length)).filterMap (fun position =>
        index.liveIds[position]?) := by
  rw [drawnIds, drawn, List.map_filterMap, liveIds, List.length_map]
  congr 1
  funext position
  rw [List.getElem?_map]

theorem drawnIds_congr {index after : IvfIndex} (settings : after.settings = index.settings)
    (ids : after.liveIds = index.liveIds) : after.drawnIds host = index.drawnIds host := by
  have seed : after.seed = index.seed := congrArg (fun parts => parts.2.2.2) settings
  have nlist : after.requestedNlist = index.requestedNlist :=
    congrArg (fun parts => parts.2.2.1) settings
  rw [drawnIds_eq, drawnIds_eq, ids, seed, cellCount, cellCount, nlist]

end Overwrites

end VectorVault.IvfIndex
