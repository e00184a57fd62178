import VectorVault.IvfHistories

/-! A search that probes every cell.

Each live entry stands in the posting list of exactly one cell, so together the
lists are the live entries and only the truncation to `k` is left. -/

namespace VectorVault.IvfIndex

open FloatOrder

theorem grouped_perm {A : Type} (keys : List Nat) (key : A → Nat) (items : List A)
    (distinct : keys.Nodup) (listed : ∀ item ∈ items, key item ∈ keys) :
    (keys.flatMap (fun group => items.filter (fun item => key item = group))).Perm items := by
  induction keys generalizing items with
  | nil =>
      cases items with
      | nil => exact List.Perm.nil
      | cons item rest => exact absurd (listed item List.mem_cons_self) List.not_mem_nil
  | cons group rest ih =>
      obtain ⟨apart, later⟩ := List.nodup_cons.mp distinct
      have others : ∀ other ∈ rest, items.filter (fun item => key item = other) =
          (items.filter (fun item => ¬ key item = group)).filter (fun item => key item = other) := by
        intro other member
        rw [List.filter_filter]
        apply List.filter_congr
        intro item _
        by_cases here : key item = other
        · have unequal : ¬ key item = group := fun same => apart (same ▸ here ▸ member)
          simp [here, here ▸ unequal]
        · simp [here]
      have left := ih (items.filter (fun item => ¬ key item = group)) later (by
        intro item member
        obtain ⟨inside, elsewhere⟩ := List.mem_filter.mp member
        rcases List.mem_cons.mp (listed item inside) with same | known
        · exact absurd same (of_decide_eq_true elsewhere)
        · exact known)
      have first : (group :: rest).flatMap (fun group => items.filter (fun item => key item = group)) =
          items.filter (fun item => key item = group) ++
            rest.flatMap (fun other => (items.filter (fun item => ¬ key item = group)).filter
              (fun item => key item = other)) := by
        rw [List.flatMap_cons, List.flatMap_congr others]
      have whole := List.filter_append_perm (fun item => decide (key item = group)) items
      simp only [← decide_not] at whole
      rw [first]
      exact (left.append_left _).trans whole

section Cells

variable {D : Type} [FloatOrder D] (host : Host D)

theorem nearestCell_lt (vec : List F32) (centroids : List (List F32)) (first : Nat)
    (best : D × Nat) (inside : best.2 < first + centroids.length) :
    nearestCell host vec centroids first best < first + centroids.length := by
  induction centroids generalizing first best with
  | nil => exact inside
  | cons centroid rest ih =>
      rw [List.length_cons, Nat.add_comm rest.length 1, ← Nat.add_assoc] at inside ⊢
      apply ih
      split
      · exact Nat.lt_of_lt_of_le (Nat.lt_succ_self first) (Nat.le_add_right _ _)
      · exact inside

theorem cellOf_lt {centroids : List (List F32)} (some_ : 0 < centroids.length)
    (vec : List F32) : cellOf host centroids vec < centroids.length := by
  have inside := nearestCell_lt host vec centroids 0 (infinity, 0) (by omega)
  rw [Nat.zero_add] at inside
  exact inside

/-- Induction over the rounds left: the assignment is that of a function into the
cells. -/
theorem refine_cells {vectors : List (List F32)} (rounds : Nat) (isFirst : Bool)
    (cells : List F32 → Nat) (centroids : List (List F32)) (some_ : 0 < centroids.length)
    (inside : ∀ vec, cells vec < centroids.length) :
    ∃ final settled, refine host vectors rounds isFirst (vectors.map cells) centroids =
        (vectors.map final, settled) ∧
      settled.length = centroids.length ∧ ∀ vec, final vec < centroids.length := by
  induction rounds generalizing isFirst cells centroids with
  | zero => exact ⟨cells, centroids, rfl, rfl, inside⟩
  | succ rounds ih =>
      have assigned : assign host centroids vectors = vectors.map (cellOf host centroids) := rfl
      have length := length_recompute host centroids vectors (vectors.map (cellOf host centroids))
      simp only [refine, assigned]
      split
      · exact ⟨_, _, rfl, length, cellOf_lt host some_⟩
      · obtain ⟨final, settled, result, same, below⟩ := ih false (cellOf host centroids)
          (recompute host centroids vectors (vectors.map (cellOf host centroids)))
          (by rw [length]; exact some_) (by rw [length]; exact cellOf_lt host some_)
        rw [length] at same below
        exact ⟨final, settled, result, same, below⟩

variable {index : IvfIndex}

/-- With a live entry, the partitioning a search uses has a cell for every vector,
be it cached or built now. -/
theorem Kept.partitioned (kept : index.Kept host) (some_ : index.liveCount ≠ 0) :
    ∃ built cells settled, index.ensurePartitionsBuilt host = .ok built ∧
      built.Clustered cells settled ∧ settled ≠ [] ∧
      settled.length = (index.drawn host).length ∧ ∀ vec, cells vec < settled.length := by
  have live := kept.wellFormed.liveSlots_ne_nil some_
  have positive : 0 < ((index.drawn host).map IvfEntry.vector).length := by
    rw [List.length_map]
    exact List.length_pos_iff.mpr (drawn_ne_nil host live)
  obtain ⟨cells, settled, ends, length, below⟩ := @refine_cells D _ host
    (index.livePairs.map (fun pair => pair.1.vector)) maxKMeansIterations true (fun _ => 0)
    ((index.drawn host).map IvfEntry.vector) positive (fun _ => positive)
  obtain ⟨built, ensured, clustered⟩ :=
    kept.clustered host live ends (length.trans (List.length_map IvfEntry.vector))
  have nonempty : settled ≠ [] := by
    rw [← List.length_pos_iff, length]
    exact positive
  exact ⟨built, cells, settled, ensured, clustered, nonempty,
    length.trans (List.length_map IvfEntry.vector), by rw [length]; exact below⟩

end Cells

section Search

variable {D : Type} [LinearOrder D] [OrderTop D] (host : Host D) {index : IvfIndex}

def scored (index : IvfIndex) (q : List F32) : List (Candidate D) :=
  index.liveEntries.map (fun entry => ⟨entry.id, host.distanceOr index.metric q entry.vector⟩)

theorem probes_all {cells : List F32 → Nat} {settled : List (List F32)} {params : QueryParams}
    (q : List F32) (inside : ∀ vec, cells vec < settled.length)
    (enough : settled.length ≤ max 1 params.nprobe.toNat) :
    ((probes host q settled params).flatMap
      (fun probe => index.posted host cells q probe.2)).Perm (index.scored host q) := by
  have every : probeCount settled.length params = settled.length := by
    have positive := inside []
    unfold probeCount
    simp only
    by_cases few : params.nprobe < 1
    · have zero : params.nprobe.toNat < 1 := UInt32.lt_iff_toNat_lt.mp few
      rw [if_pos few]
      split <;> omega
    · have one : ¬ params.nprobe.toNat < 1 := fun less => few (UInt32.lt_iff_toNat_lt.mpr less)
      rw [if_neg few]
      split <;> omega
  have all : (probes host q settled params).Perm
      (settled.mapIdx (fun c centroid => (host.squaredL2 q centroid, c))) := by
    rw [probes, every, List.take_of_length_le (by rw [length_sortBy, List.length_mapIdx])]
    exact sortBy_perm _ _
  have numbers : (settled.mapIdx (fun c centroid => (host.squaredL2 q centroid, c))).map Prod.snd =
      List.range settled.length := by
    apply List.ext_getElem
    · simp
    · intro position _ _
      simp
  have byNumber : (settled.mapIdx (fun c centroid => (host.squaredL2 q centroid, c))).flatMap
      (fun probe => index.posted host cells q probe.2) =
        ((List.range settled.length).flatMap (fun cell =>
          index.liveEntries.filter (fun entry => cells entry.vector = cell))).map
            (fun entry => ⟨entry.id, host.distanceOr index.metric q entry.vector⟩) := by
    rw [List.map_flatMap, ← numbers, List.flatMap_map]
    rfl
  have grouped := grouped_perm (List.range settled.length)
    (fun entry : IvfEntry => cells entry.vector) index.liveEntries List.nodup_range
    (fun entry _ => List.mem_range.mpr (inside entry.vector))
  apply (all.flatMap_right _).trans
  rw [byNumber]
  exact grouped.map _

theorem Kept.search_exhaustive (kept : index.Kept host) (q : List F32) {k : UInt32}
    {params : QueryParams} (wanted : k ≠ 0) (some_ : index.liveCount ≠ 0)
    (enough : ∀ built, index.ensurePartitionsBuilt host = .ok built →
      built.centroids.length ≤ max 1 params.nprobe.toNat) :
    ∃ after, index.search host q k params =
      .ok ((sortBy HnswIndex.candidateLt (index.scored host q)).take k.toNat, after) := by
  obtain ⟨built, cells, settled, ensured, clustered, nonempty, _, inside⟩ :=
    kept.partitioned host some_
  obtain ⟨roster, settings, _⟩ := ensurePartitionsBuilt_rest host ensured
  have entries : built.entries = index.entries := congrArg Roster.entries roster
  have metric : built.metric = index.metric := congrArg (fun parts => parts.2.1) settings
  have sameScores : built.scored host q = index.scored host q := by
    rw [scored, scored, liveEntries, liveEntries, entries, metric]
  have probed := enough built ensured
  rw [clustered.settled] at probed
  have permuted := @probes_all D _ _ host built _ _ _ q inside probed
  rw [sameScores] at permuted
  have searched := search_clustered host (show ¬ (k = 0 ∨ index.liveCount = 0) by tauto) ensured
    clustered nonempty q params
  rw [sortBy_eq_of_perm HnswIndex.candidateLt candidateRank candidateLt_iff
    candidateRank_injective permuted] at searched
  exact ⟨built, searched⟩

end Search

end VectorVault.IvfIndex
