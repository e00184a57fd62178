import VectorVault.IvfExhaustive

/-! Searches of one index with fewer and with more probes.

The cells are ranked once for both, so fewer probes look at a first part of what
more probes look at. -/

namespace VectorVault.IvfIndex

open FloatOrder

theorem probeCount_mono {query wider : QueryParams} (more : query.nprobe ≤ wider.nprobe)
    (nlist : Nat) : probeCount nlist query ≤ probeCount nlist wider := by
  have numbers := UInt32.le_iff_toNat_le.mp more
  have small : ∀ number : UInt32, number < 1 ↔ number.toNat < 1 :=
    fun number => UInt32.lt_iff_toNat_lt
  simp only [probeCount, small]
  split_ifs <;> omega

variable {D : Type} [LinearOrder D] [OrderTop D] (host : Host D) {index : IvfIndex}

theorem probes_sublist {query wider : QueryParams} (more : query.nprobe ≤ wider.nprobe)
    (q : List F32) (centroids : List (List F32)) :
    (probes host q centroids query).Sublist (probes host q centroids wider) :=
  (List.take_prefix_take_left (probeCount_mono more centroids.length)).sublist

/-- More probes find at least as many candidates, none of them later in its place. -/
theorem search_probes_ahead {dimensionality : UInt32} {metric : DistanceMetric}
    {params : IndexParams} (reached : Reached host dimensionality metric params index)
    (q : List F32) (k : UInt32) {query wider : QueryParams}
    (more : query.nprobe ≤ wider.nprobe) :
    ∃ few many after, index.search host q k query = .ok (few, after) ∧
      index.search host q k wider = .ok (many, after) ∧ few.length ≤ many.length ∧
      ∀ i (short : i < few.length) (long : i < many.length),
        candidateRank many[i] ≤ candidateRank few[i] := by
  by_cases idle : k = 0 ∨ index.liveCount = 0
  · refine ⟨[], [], index, ?_, ?_, le_rfl, ?_⟩
    · rw [search, if_pos idle]
      rfl
    · rw [search, if_pos idle]
      rfl
    · intro i short
      exact absurd short (Nat.not_lt_zero i)
  · have some_ : index.liveCount ≠ 0 := fun none => idle (Or.inr none)
    rcases (reached.kept host).1.partitioned host some_ with
      ⟨built, cells, settled, ensured, clustered, nonempty, _⟩
    have posted_ : ((probes host q settled query).flatMap
          (fun probe => built.posted host cells q probe.2)).Subperm
        ((probes host q settled wider).flatMap
          (fun probe => built.posted host cells q probe.2)) :=
      ((probes_sublist host more q settled).flatMap _).subperm
    have ahead := sortBy_take_ahead HnswIndex.candidateLt candidateRank candidateLt_iff
      candidateRank_injective posted_ k.toNat
    exact ⟨_, _, built, search_clustered host idle ensured clustered nonempty q query,
      search_clustered host idle ensured clustered nonempty q wider, ahead⟩

/-- Two points in two cells, queried with one probe and with two. -/
theorem search_probes_ahead_of_two_cells :
    ∃ (index : IvfIndex) (few many : List (Candidate (WithTop Nat))) (after : IvfIndex),
      index.search ExactLine.meansHost [5] 2 { nprobe := 1 } = .ok (few, after) ∧
      index.search ExactLine.meansHost [5] 2 { nprobe := 2 } = .ok (many, after) ∧
      few.length ≤ many.length ∧
      ∀ i (short : i < few.length) (long : i < many.length),
        candidateRank many[i] ≤ candidateRank few[i] := by
  have start := @Reached.new _ _ ExactLine.meansHost 1 .euclidean { nlist := 2 }
  rcases addAll_reached start [([1], [0]), ([2], [4])] (by decide) with ⟨index, _, reached, _⟩
  exact ⟨index, search_probes_ahead ExactLine.meansHost reached [5] 2
    (show ({ nprobe := 1 } : QueryParams).nprobe ≤ ({ nprobe := 2 } : QueryParams).nprobe by decide)⟩

end VectorVault.IvfIndex
