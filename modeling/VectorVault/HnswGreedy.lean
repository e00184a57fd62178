import VectorVault.HnswReached

/-! The two greedy choices of the graph: which neighbours to keep, and where a
descent stops. Distances are totally ordered. -/

namespace VectorVault.HnswIndex

open FloatOrder BestFirst GreedyDescent DiverseSelection

variable {D : Type} [LinearOrder D] [OrderTop D] (host : Host D) {index : HnswIndex}

section Selection

/-- What the heuristic takes of its candidates, as the candidates themselves. -/
structure Diverse (index : HnswIndex) (m : Nat) (candidates chosen : List (D × Nat)) : Prop where
  among : ∀ cand ∈ chosen, cand ∈ candidates
  ascending : chosen.Pairwise (fun earlier later => toLex earlier < toLex later)
  atMost : chosen.length ≤ m
  nearest : ∀ cand ∈ candidates, (∀ other ∈ candidates, toLex cand ≤ toLex other) → cand ∈ chosen
  closer : chosen.Pairwise (fun earlier later => later.1 < index.apart host later.2 earlier.2)
  others : ∀ cand ∈ candidates, cand ∉ chosen →
    (∃ earlier ∈ chosen, toLex earlier < toLex cand ∧
      index.apart host cand.2 earlier.2 ≤ cand.1) ∨
    (chosen.length = m ∧ ∀ accepted ∈ chosen, toLex accepted < toLex cand)

theorem sortBy_ascending {candidates : List (D × Nat)}
    (distinct : (candidates.map Prod.snd).Nodup) :
    (sortBy keyedLt candidates).Pairwise (fun earlier later => toLex earlier < toLex later) := by
  have atMost := sortBy_pairwise keyedLt (fun cand : D × Nat => toLex cand) keyedLt_iff candidates
  have apart_ : (sortBy keyedLt candidates).Nodup := by
    rw [(sortBy_perm keyedLt candidates).nodup_iff]
    exact distinct.of_map
  have unequal : (sortBy keyedLt candidates).Pairwise (fun earlier later => earlier ≠ later) :=
    apart_
  apply (atMost.and unequal).imp
  intro earlier later both
  exact lt_of_le_of_ne both.1 (fun same => both.2 (toLex.injective same))

/-- The heuristic, for candidates that are nodes of the index and a limit of at
least one. -/
theorem selectNeighborsHeuristic_diverse {candidates : List (D × Nat)} {m : Nat}
    (distinct : (candidates.map Prod.snd).Nodup)
    (valid : ∀ cand ∈ candidates, cand.2 < index.nodes.length) (positive : 1 ≤ m) :
    ∃ chosen, Diverse host index m candidates chosen ∧
      ∀ permuted : List (D × Nat), permuted.Perm candidates →
        index.selectNeighborsHeuristic host permuted m = .ok (chosen.map Prod.snd) := by
  have ordered := sortBy_ascending distinct
  rcases @pick_chosen _ _ _ (index.apart host) m _ _ ordered with ⟨chosen, picked, spec⟩
  have among : ∀ cand ∈ chosen, cand ∈ candidates := by
    intro cand inside
    exact (mem_sortBy keyedLt candidates cand).mp (spec.sub.subset inside)
  refine ⟨chosen, ⟨among, ordered.sublist spec.sub, spec.atMost, ?_, ?_, ?_⟩, ?_⟩
  · intro cand member least
    apply spec.first_mem positive ((mem_sortBy _ _ _).mpr member)
    intro other inside
    exact not_lt.mpr (least other ((mem_sortBy _ _ _).mp inside))
  · apply spec.spread.imp
    intro earlier later far
    simpa [le] using far
  · intro cand member absent
    rcases spec.others cand ((mem_sortBy _ _ _).mpr member) absent with near | late
    · rcases near with ⟨earlier, inside, sooner, near⟩
      exact Or.inl ⟨earlier, inside, sooner, (le_iff _ _).mp near⟩
    · exact Or.inr late
  · intro permuted same
    have sorted : sortBy keyedLt permuted = sortBy keyedLt candidates :=
      sortBy_eq_of_perm keyedLt (fun cand : D × Nat => toLex cand) keyedLt_iff toLex.injective same
    rw [selectNeighborsHeuristic_eq host m permuted
      (fun cand member => valid cand (same.subset member)), sorted, picked]

def pair : HnswIndex :=
  { new 1 .euclidean {} with
    nodes := [⟨[1], [4], 0, false, [[1]]⟩, ⟨[2], [6], 0, false, [[0]]⟩] }

/-- Seen from 0 the nearer node, at 4, is kept; the one at 6 is closer to it. -/
theorem selectNeighborsHeuristic_diverse_of_pair :
    ∃ chosen : List (WithTop Nat × Nat),
      Diverse (ExactLine.host []) pair 2 [(6, 1), (4, 0)] chosen ∧
      ∀ permuted : List (WithTop Nat × Nat), permuted.Perm [(6, 1), (4, 0)] →
        pair.selectNeighborsHeuristic (ExactLine.host []) permuted 2 =
          .ok (chosen.map Prod.snd) :=
  selectNeighborsHeuristic_diverse (ExactLine.host []) (by decide) (by decide) (by decide)

end Selection

section Descent

variable {layer entry : Nat}

/-- The descent on a layer returns, at a node that its entry leads to and that no
neighbour is closer than. -/
theorem greedyDescend_settles (q : List F32) (edges : index.EdgesOnLayer)
    (there : index.OnLayer layer entry) :
    ∃ final, index.greedyDescend host q entry layer = .ok final ∧
      Connected (index.linked layer) entry final ∧
      index.score host q final ≤ index.score host q entry ∧
      ∀ next ∈ index.linked layer final, index.score host q final ≤ index.score host q next := by
  have closed : index.Closed layer
      (fun node => index.OnLayer layer node ∧ Connected (index.linked layer) entry node) := by
    intro node held
    refine ⟨held.1, ?_⟩
    intro next edge
    exact ⟨edges layer node next edge, held.2.tail edge⟩
  have start : index.OnLayer layer entry ∧ Connected (index.linked layer) entry entry :=
    ⟨there, Relation.ReflTransGen.refl⟩
  rcases greedyDescend_spec host q closed start with ⟨final, returns, ⟨_, reaches⟩, found⟩
  have least := descend_least (index.score host q) (index.linked layer) _ _ _ found
  exact ⟨final, returns, reaches, least⟩

theorem pair_edges : pair.EdgesOnLayer := by
  intro layer node next edge
  have onLayer : ∀ other < 2, pair.OnLayer 0 other := by
    intro other less
    have cases_ : other = 0 ∨ other = 1 := by omega
    rcases cases_ with isFirst | isSecond
    · rw [isFirst]
      exact ⟨_, rfl, by decide⟩
    · rw [isSecond]
      exact ⟨_, rfl, by decide⟩
  rcases layer with _ | layer
  · rcases node with _ | _ | node
    · have isSecond : next = 1 := List.mem_singleton.mp edge
      rw [isSecond]
      exact onLayer 1 (by decide)
    · have isFirst : next = 0 := List.mem_singleton.mp edge
      rw [isFirst]
      exact onLayer 0 (by decide)
    · cases edge
  · rcases node with _ | _ | node
    · cases edge
    · cases edge
    · cases edge

theorem greedyDescend_settles_of_pair :
    ∃ final, pair.greedyDescend (ExactLine.host []) [9] 0 0 = .ok final ∧
      Connected (pair.linked 0) 0 final ∧
      pair.score (ExactLine.host []) [9] final ≤ pair.score (ExactLine.host []) [9] 0 ∧
      ∀ next ∈ pair.linked 0 final,
        pair.score (ExactLine.host []) [9] final ≤ pair.score (ExactLine.host []) [9] next :=
  greedyDescend_settles (ExactLine.host []) [9] pair_edges ⟨_, rfl, by decide⟩

end Descent

end VectorVault.HnswIndex
