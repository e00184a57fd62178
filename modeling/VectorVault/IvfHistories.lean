import VectorVault.IvfPartitions
import VectorVault.ExactLine

/-! Two histories of an inverted-file index with the same live records.

The centroids start from the live slots the seeded shuffle takes first, and the
slots stand in the order the records came. Where both histories start from the
same centroids, every search agrees. -/

namespace VectorVault.IvfIndex

open FloatOrder

section Fresh

variable {D : Type} [FloatOrder D] (host : Host D) {index after : IvfIndex}

/-- The caches, when they are not stale, are what building them again gives. -/
def Fresh (index : IvfIndex) : Prop :=
  index.ensurePartitionsBuilt host = ensurePartitionsBuilt host { index with dirty := true }

theorem fresh_of_dirty (dirty : index.dirty = true) : index.Fresh host := by
  have same : { index with dirty := true } = index := by rw [← dirty]
  rw [Fresh, same]

theorem ensurePartitionsBuilt_ok {built : IvfIndex}
    (done : index.ensurePartitionsBuilt host = .ok built) :
    built.dirty = false ∧ ∃ centroids lists,
      built = { index with centroids := centroids, invertedLists := lists, dirty := false } := by
  unfold ensurePartitionsBuilt at done
  split at done
  · next clean =>
      rw [← Except.ok.inj done]
      exact ⟨clean, index.centroids, index.invertedLists, by rw [← clean]⟩
  · simp only at done
    split at done
    · rw [← Except.ok.inj done]
      exact ⟨rfl, _, _, rfl⟩
    · obtain ⟨_, _, done⟩ := bind_ok done
      obtain ⟨_, _, done⟩ := bind_ok done
      obtain ⟨_, _, done⟩ := bind_ok done
      rw [← Except.ok.inj done]
      exact ⟨rfl, _, _, rfl⟩

theorem Fresh.built {built : IvfIndex} (fresh : index.Fresh host)
    (done : index.ensurePartitionsBuilt host = .ok built) : built.Fresh host := by
  obtain ⟨clean, centroids, lists, shape⟩ := ensurePartitionsBuilt_ok host done
  have kept : built.ensurePartitionsBuilt host = .ok built := by
    rw [ensurePartitionsBuilt, if_pos clean]
    rfl
  calc built.ensurePartitionsBuilt host = .ok built := kept
    _ = index.ensurePartitionsBuilt host := done.symm
    _ = ensurePartitionsBuilt host { index with dirty := true } := fresh
    _ = ensurePartitionsBuilt host { built with dirty := true } := by rw [shape]; rfl

theorem search_built {q : List F32} {k : UInt32} {params : QueryParams}
    {candidates : List (Candidate D)}
    (searched : index.search host q k params = .ok (candidates, after)) :
    after = index ∨ index.ensurePartitionsBuilt host = .ok after := by
  unfold search at searched
  split at searched
  · cases searched
    exact Or.inl rfl
  · obtain ⟨built, done, searched⟩ := bind_ok searched
    right
    split at searched
    · cases searched
      exact done
    · obtain ⟨_, _, searched⟩ := bind_ok searched
      cases searched
      exact done

end Fresh

section Reached

variable {D : Type} [FloatOrder D]

/-- The histories of an index: additions and removals, with searches in between. -/
inductive Reached (host : Host D) (dimensionality : UInt32) (metric : DistanceMetric)
    (params : IndexParams) : IvfIndex → Prop
  | new : Reached host dimensionality metric params (new dimensionality metric params)
  | add {index after : IvfIndex} {status : Status} (id : RecordId) (vec : List F32)
      (before : Reached host dimensionality metric params index)
      (added : index.add id vec = .ok (status, after)) :
      Reached host dimensionality metric params after
  | remove {index after : IvfIndex} {status : Status} (id : RecordId)
      (before : Reached host dimensionality metric params index)
      (removed : index.remove id = .ok (status, after)) :
      Reached host dimensionality metric params after
  | search {index after : IvfIndex} {candidates : List (Candidate D)} (q : List F32) (k : UInt32)
      (query : QueryParams) (before : Reached host dimensionality metric params index)
      (searched : index.search host q k query = .ok (candidates, after)) :
      Reached host dimensionality metric params after

variable (host : Host D) {dimensionality : UInt32} {metric : DistanceMetric}
  {params : IndexParams} {index after : IvfIndex} {status : Status} {id : RecordId}
  {vec : List F32}

structure Kept (index : IvfIndex) : Prop where
  wellFormed : index.WellFormed
  fresh : index.Fresh host

theorem Kept.add (kept : index.Kept host) (added : index.add id vec = .ok (status, after)) :
    after.Kept host ∧ after.settings = index.settings := by
  cases rejected : HnswIndex.rejectAdd index.dimensionality id vec with
  | some error =>
      simp only [IvfIndex.add, rejected] at added
      cases added
      exact ⟨kept, rfl⟩
  | none =>
      have named : id ≠ [] := by
        intro empty
        rw [HnswIndex.rejectAdd, if_pos empty] at rejected
        cases rejected
      have sized : vec.length = index.dimensionality.toNat := by
        by_contra other
        rw [HnswIndex.rejectAdd, if_neg named, if_pos other] at rejected
        cases rejected
      obtain ⟨final, done, wellFormed, settings, _⟩ := kept.wellFormed.add_roster named sized
      rw [done] at added
      cases added
      refine ⟨⟨wellFormed, fresh_of_dirty host ?_⟩, settings⟩
      simp only [IvfIndex.add, rejected] at done
      split at done
      · obtain ⟨_, _, result⟩ := bind_ok done
        cases result
        rfl
      · cases done
        rfl

theorem Kept.remove (kept : index.Kept host) (removed : index.remove id = .ok (status, after)) :
    after.Kept host ∧ after.settings = index.settings := by
  cases known : index.idToIndex.find? id with
  | none =>
      simp only [IvfIndex.remove, known] at removed
      cases removed
      exact ⟨kept, rfl⟩
  | some slot =>
      obtain ⟨held, found, isId⟩ := held_of kept.wellFormed known
      have there : access index.entries slot = .ok held := by simp only [access, found]
      simp only [IvfIndex.remove, known, there, bind, Except.bind] at removed
      split at removed
      · cases removed
        exact ⟨kept, rfl⟩
      · next live =>
          have alive : index.roster.vectorOf id = some held.vector := by
            apply (kept.wellFormed.sound.vectorOf_iff id _).mpr
            exact ⟨held, List.mem_of_getElem? found, isId, Bool.eq_false_of_not_eq_true live, rfl⟩
          obtain ⟨final, done, wellFormed, settings, _⟩ := kept.wellFormed.remove_roster alive
          simp only [IvfIndex.remove, known, there, bind, Except.bind, if_neg live] at done
          cases removed
          cases done
          exact ⟨⟨wellFormed, fresh_of_dirty host rfl⟩, settings⟩

theorem WellFormed.cached {built : IvfIndex} (wellFormed : index.WellFormed)
    (roster : built.roster = index.roster) (liveCount : built.liveCount = index.liveCount) :
    built.WellFormed := by
  constructor
  · rw [roster]
    exact wellFormed.sound
  · rw [roster, liveCount]
    exact wellFormed.liveCount

theorem Kept.search {q : List F32} {k : UInt32} {query : QueryParams}
    {candidates : List (Candidate D)} (kept : index.Kept host)
    (searched : index.search host q k query = .ok (candidates, after)) :
    after.Kept host ∧ after.settings = index.settings := by
  obtain ⟨roster, settings, liveCount⟩ := search_rest host searched
  refine ⟨⟨kept.wellFormed.cached roster liveCount, ?_⟩, settings⟩
  rcases search_built host searched with same | built
  · rw [same]
    exact kept.fresh
  · exact kept.fresh.built host built

theorem Reached.kept (reached : Reached host dimensionality metric params index) :
    index.Kept host ∧ index.settings = (dimensionality, metric, params.nlist, params.seed) := by
  induction reached with
  | new =>
      exact ⟨⟨new_wellFormed dimensionality metric params, fresh_of_dirty host rfl⟩, rfl⟩
  | add id vec _ added ih =>
      obtain ⟨kept, settings⟩ := ih.1.add host added
      exact ⟨kept, settings.trans ih.2⟩
  | remove id _ removed ih =>
      obtain ⟨kept, settings⟩ := ih.1.remove host removed
      exact ⟨kept, settings.trans ih.2⟩
  | search q k query _ searched ih =>
      obtain ⟨kept, settings⟩ := ih.1.search host searched
      exact ⟨kept, settings.trans ih.2⟩

end Reached

section Partitions

variable {D : Type} [FloatOrder D] (host : Host D) {index : IvfIndex}

theorem livePairs_vectors (index : IvfIndex) :
    index.livePairs.map (fun pair => pair.1.vector) = index.liveEntries.map IvfEntry.vector := by
  rw [← livePairs_fst, List.map_map]
  rfl

theorem WellFormed.live_length (wellFormed : index.WellFormed) :
    index.liveEntries.length = index.liveCount := by
  rw [wellFormed.liveCount, Roster.liveCount, List.countP_eq_length_filter]
  rfl

theorem WellFormed.liveSlots_ne_nil (wellFormed : index.WellFormed) (some_ : index.liveCount ≠ 0) :
    index.liveSlots ≠ [] := by
  intro empty
  have length := liveSlots_length index
  rw [empty, wellFormed.live_length] at length
  exact some_ length.symm

omit [FloatOrder D] in
theorem drawn_ne_nil (live : index.liveSlots ≠ []) : index.drawn host ≠ [] := by
  have positive := List.length_pos_iff.mpr live
  have bounds := @cellCount_bounds index _ positive
  rw [← List.length_pos_iff, length_drawn, ← liveSlots_length]
  exact lt_min bounds.1 positive

theorem Kept.clustered (kept : index.Kept host) (live : index.liveSlots ≠ [])
    {cells : List F32 → Nat} {settled : List (List F32)}
    (ends : refine host (index.livePairs.map (fun pair => pair.1.vector)) maxKMeansIterations true
      ((index.livePairs.map (fun pair => pair.1.vector)).map (fun _ => 0))
        ((index.drawn host).map IvfEntry.vector) =
        ((index.livePairs.map (fun pair => pair.1.vector)).map cells, settled))
    (length : settled.length = (index.drawn host).length) :
    ∃ built, index.ensurePartitionsBuilt host = .ok built ∧ built.Clustered cells settled := by
  obtain ⟨built, ensured, clustered, _⟩ := @ensurePartitionsBuilt_stale D _ host
    { index with dirty := true } rfl live cells settled ends length
  exact ⟨built, kept.fresh.trans ensured, clustered⟩

end Partitions

section Agreement

def candidateRank {D : Type} (candidate : Candidate D) : D ×ₗ RecordId :=
  toLex (candidate.distance, candidate.id)

theorem candidateRank_injective {D : Type} :
    Function.Injective (candidateRank : Candidate D → D ×ₗ RecordId) := by
  intro first second same
  have parts := Prod.ext_iff.mp (toLex.injective same)
  cases first
  cases second
  simp only at parts
  rw [parts.1, parts.2]

variable {D : Type} [LinearOrder D] [OrderTop D] (host : Host D) {one other built : IvfIndex}

theorem candidateLt_iff (first second : Candidate D) :
    HnswIndex.candidateLt first second = true ↔ candidateRank first < candidateRank second := by
  rw [candidateRank, candidateRank, ← keyedLt_iff, HnswIndex.candidateLt]
  simp only [keyedLt]
  by_cases same : eq first.distance second.distance = true
  · simp only [same, Bool.not_true, Bool.false_eq_true, if_false, decide_eq_true_eq]
  · simp only [same, Bool.not_false, if_true]

def probes (q : List F32) (centroids : List (List F32)) (params : QueryParams) :
    List (D × Nat) :=
  (sortBy pairLt (centroids.mapIdx (fun c centroid => (host.squaredL2 q centroid, c)))).take
    (probeCount centroids.length params)

theorem probes_inside {q : List F32} {centroids : List (List F32)} {params : QueryParams} :
    ∀ probe ∈ probes host q centroids params, probe.2 < centroids.length := by
  intro probe member
  have known := (mem_sortBy _ _ _).mp (List.mem_of_mem_take member)
  obtain ⟨position, inside, same⟩ := List.mem_mapIdx.mp known
  rw [← same]
  exact inside

theorem search_clustered {cells : List F32 → Nat} {settled : List (List F32)} {k : UInt32}
    (wanted : ¬ (k = 0 ∨ one.liveCount = 0))
    (ensured : one.ensurePartitionsBuilt host = .ok built) (clustered : built.Clustered cells settled)
    (nonempty : settled ≠ []) (q : List F32) (params : QueryParams) :
    one.search host q k params =
      .ok ((sortBy HnswIndex.candidateLt ((probes host q settled params).flatMap
        (fun probe => built.posted host cells q probe.2))).take k.toNat, built) := by
  have scanned := scanCells_clustered host clustered q (probes host q settled params)
    (probes_inside host)
  have some_ : ¬ built.centroids = [] := by
    rw [clustered.settled]
    exact nonempty
  rw [search, if_neg wanted, ensured]
  simp only [bind, Except.bind, if_neg some_]
  rw [clustered.settled]
  simp only [probes] at scanned ⊢
  rw [scanned]
  rfl

theorem liveEntries_perm (wellFormed : one.WellFormed) (wellFormed' : other.WellFormed)
    (same : ∀ id, one.roster.vectorOf id = other.roster.vectorOf id) :
    one.liveEntries.Perm other.liveEntries := by
  have members : ∀ {index : IvfIndex}, index.WellFormed → ∀ entry,
      entry ∈ index.liveEntries ↔
        entry.deleted = false ∧ index.roster.vectorOf entry.id = some entry.vector := by
    intro index kept entry
    rw [liveEntries, List.mem_filter, kept.sound.vectorOf_iff]
    constructor
    · intro held
      have live : entry.deleted = false := by simpa using held.2
      exact ⟨live, entry, held.1, rfl, live, rfl⟩
    · intro held
      obtain ⟨live, found, inside, isId, alive, isVector⟩ := held
      have equal : found = entry := by
        cases found
        cases entry
        simp only at isId alive isVector live
        rw [isId, alive, isVector, live]
      rw [← equal]
      exact ⟨inside, by simp [alive]⟩
  have distinct : ∀ {index : IvfIndex}, index.WellFormed → index.liveEntries.Nodup := by
    intro index kept
    exact (List.Nodup.of_map IvfEntry.id kept.sound.nodup_ids).filter _
  apply (List.perm_ext_iff_of_nodup (distinct wellFormed) (distinct wellFormed')).mpr
  intro entry
  rw [members wellFormed, members wellFormed', same]

theorem liveCount_same (wellFormed : one.WellFormed) (wellFormed' : other.WellFormed)
    (same : ∀ id, one.roster.vectorOf id = other.roster.vectorOf id) :
    one.liveCount = other.liveCount := by
  calc one.liveCount = one.liveEntries.length := wellFormed.live_length.symm
    _ = other.liveEntries.length := (liveEntries_perm wellFormed wellFormed' same).length_eq
    _ = other.liveCount := wellFormed'.live_length

theorem partitions_agree (orderFree : OrderFree host) (kept : one.Kept host)
    (kept' : other.Kept host) (permuted : one.liveEntries.Perm other.liveEntries)
    (start : (one.drawn host).map IvfEntry.vector = (other.drawn host).map IvfEntry.vector)
    (some_ : one.liveCount ≠ 0) (some' : other.liveCount ≠ 0) :
    ∃ cells settled built built', one.ensurePartitionsBuilt host = .ok built ∧
      other.ensurePartitionsBuilt host = .ok built' ∧ built.Clustered cells settled ∧
      built'.Clustered cells settled ∧ settled ≠ [] := by
  have live := kept.wellFormed.liveSlots_ne_nil some_
  have live' := kept'.wellFormed.liveSlots_ne_nil some'
  obtain ⟨cells, settled, left, right, length⟩ :=
    refine_perm host orderFree (permuted.map IvfEntry.vector) maxKMeansIterations true (fun _ => 0)
      ((one.drawn host).map IvfEntry.vector)
  rw [start] at right
  rw [← livePairs_vectors one] at left
  rw [← livePairs_vectors other] at right
  have length' := length
  rw [start, List.length_map] at length'
  rw [List.length_map] at length
  obtain ⟨built, ensured, clustered⟩ := kept.clustered host live left length
  obtain ⟨built', ensured', clustered'⟩ := kept'.clustered host live' right length'
  have nonempty : settled ≠ [] := by
    rw [← List.length_pos_iff, length]
    exact List.length_pos_iff.mpr (drawn_ne_nil host live)
  exact ⟨cells, settled, built, built', ensured, ensured', clustered, clustered', nonempty⟩

theorem search_same_start (orderFree : OrderFree host) (kept : one.Kept host)
    (kept' : other.Kept host) (metric : one.metric = other.metric)
    (same : ∀ id, one.roster.vectorOf id = other.roster.vectorOf id)
    (start : (one.drawn host).map IvfEntry.vector = (other.drawn host).map IvfEntry.vector)
    (q : List F32) (k : UInt32) (query : QueryParams) :
    ∃ candidates after after', one.search host q k query = .ok (candidates, after) ∧
      other.search host q k query = .ok (candidates, after') := by
  have permuted := liveEntries_perm kept.wellFormed kept'.wellFormed same
  have sameCount := liveCount_same kept.wellFormed kept'.wellFormed same
  by_cases idle : k = 0 ∨ one.liveCount = 0
  · refine ⟨[], one, other, ?_, ?_⟩
    · rw [search, if_pos idle]
      rfl
    · rw [search, if_pos (by rw [← sameCount]; exact idle)]
      rfl
  · have idle' : ¬ (k = 0 ∨ other.liveCount = 0) := by
      rw [← sameCount]
      exact idle
    obtain ⟨cells, settled, built, built', ensured, ensured', clustered, clustered', nonempty⟩ :=
      partitions_agree host orderFree kept kept' permuted start
        (fun none => idle (Or.inr none)) (fun none => idle' (Or.inr none))
    rw [search_clustered host idle ensured clustered nonempty q query,
      search_clustered host idle' ensured' clustered' nonempty q query]
    refine ⟨_, built, built', rfl, ?_⟩
    have rest := ensurePartitionsBuilt_rest host ensured
    have rest' := ensurePartitionsBuilt_rest host ensured'
    have entries : built.entries = one.entries := congrArg Roster.entries rest.1
    have entries' : built'.entries = other.entries := congrArg Roster.entries rest'.1
    have metrics : built'.metric = built.metric := by
      calc built'.metric = other.metric := congrArg (fun parts => parts.2.1) rest'.2.1
        _ = one.metric := metric.symm
        _ = built.metric := (congrArg (fun parts => parts.2.1) rest.2.1).symm
    have posted_ : ∀ cell, (built'.posted host cells q cell).Perm
        (built.posted host cells q cell) := by
      intro cell
      rw [posted, posted, metrics, liveEntries, liveEntries, entries, entries']
      exact (permuted.symm.filter _).map _
    have equal := sortBy_eq_of_perm HnswIndex.candidateLt candidateRank
      candidateLt_iff candidateRank_injective (List.Perm.flatMap_left (probes host q settled query)
        (fun probe _ => posted_ probe.2))
    rw [equal]

end Agreement

section Orders

def addAll : IvfIndex → List (RecordId × List F32) → Run IvfIndex
  | index, [] => return index
  | index, (id, vec) :: rest => do
      let (_, added) ← index.add id vec
      added.addAll rest

def vectorsAfter (vectors : RecordId → Option (List F32)) (records : List (RecordId × List F32)) :
    RecordId → Option (List F32) :=
  records.foldl (fun held record id => if id = record.1 then some record.2 else held id) vectors

theorem addAll_reached {D : Type} [FloatOrder D] {host : Host D} {dimensionality : UInt32}
    {metric : DistanceMetric} {params : IndexParams} {index : IvfIndex}
    (reached : Reached host dimensionality metric params index)
    (records : List (RecordId × List F32)) (valid : ∀ record ∈ records,
      record.1 ≠ [] ∧ record.2.length = dimensionality.toNat) :
    ∃ final, index.addAll records = .ok final ∧
      Reached host dimensionality metric params final ∧
      ∀ id, final.roster.vectorOf id = vectorsAfter index.roster.vectorOf records id := by
  induction records generalizing index with
  | nil => exact ⟨index, rfl, reached, fun _ => rfl⟩
  | cons record rest ih =>
      obtain ⟨kept, settings⟩ := reached.kept host
      have isDimensionality : index.dimensionality = dimensionality :=
        congrArg Prod.fst settings
      have here := valid record List.mem_cons_self
      rw [← isDimensionality] at here
      obtain ⟨after, added, _, _, vectors⟩ := kept.wellFormed.add_roster here.1 here.2
      obtain ⟨final, done, reachedFinal, table⟩ := ih (reached.add record.1 record.2 added)
        (fun other member => valid other (List.mem_cons_of_mem record member))
      refine ⟨final, ?_, reachedFinal, ?_⟩
      · obtain ⟨id, vec⟩ := record
        simp only [addAll, added]
        exact done
      · intro id
        have step : after.roster.vectorOf = fun id =>
            if id = record.1 then some record.2 else index.roster.vectorOf id := by
          funext other
          exact vectors other
        rw [table, step]
        rfl

end Orders

end VectorVault.IvfIndex
