import VectorVault.HnswReached
import VectorVault.Library.BestFirstRanked

/-! What one layered search returns, ties allowed.

Every neighbour of a result is a result, unless there are as many results as were
asked for and none of them is farther. -/

namespace VectorVault.HnswIndex

open FloatOrder BestFirst

section Search

variable {D : Type} [LinearOrder D] [OrderTop D] (host : Host D) {index : HnswIndex}

structure LayerSearched (index : HnswIndex) (q : List F32) (ef layer entry : Nat)
    (found : List (D × Nat)) : Prop where
  ascending : found.Pairwise
    (fun first second => first.1 < second.1 ∨ first.1 = second.1 ∧ first.2 < second.2)
  distinct : (found.map Prod.snd).Nodup
  bound : found.length ≤ ef
  reached : ∀ item ∈ found, item.1 = index.score host q item.2 ∧
    Connected (index.linked layer) entry item.2
  complete : ∀ item ∈ found, ∀ next ∈ index.linked layer item.2,
    next ∈ found.map Prod.snd ∨
      found.length = ef ∧ ∀ other ∈ found, other.1 ≤ index.score host q next
  all : ∀ reach : Finset Nat,
    (∀ node, node ∈ reach ↔ Connected (index.linked layer) entry node) → reach.card ≤ ef →
      ∀ node, node ∈ found.map Prod.snd ↔ node ∈ reach

theorem searchLayer_local (edges : index.EdgesOnLayer) (q : List F32) {ef layer entry : Nat}
    (there : index.OnLayer layer entry) (positive : 1 ≤ ef) :
    ∃ found, index.searchLayer host q [entry] ef layer = .ok found ∧
      LayerSearched host index q ef layer entry found := by
  have closed := edges.closed layer
  have onLayer : ∀ node, Connected (index.linked layer) entry node → index.OnLayer layer node := by
    intro node path
    induction path with
    | refl => exact there
    | @tail node next _ edge ih => exact (closed node ih).2 next edge
  obtain ⟨final, result, _, explored⟩ := searchLayer_spec host q closed there positive
  have listed : ∀ node, Connected (index.linked layer) entry node →
      node ∈ List.range index.nodes.length :=
    fun node path => closed.mem_range node (onLayer node path)
  obtain ⟨other, exploredToo, local_⟩ := explore_local (index.score host q) (index.linked layer) ef
    (List.range index.nodes.length) entry (index.nodes.length + 2) listed positive
    (by rw [List.length_range]; omega)
  rw [explored, Option.some.injEq] at exploredToo
  rw [← exploredToo] at local_
  refine ⟨_, result, ?_, local_.distinct, local_.bound, local_.items, ?_, ?_⟩
  · apply local_.ascending.imp
    intro first second less
    exact Prod.Lex.toLex_lt_toLex.mp less
  · intro item member next edge
    exact local_.complete next (Or.inr ⟨item.2, List.mem_map_of_mem member, edge⟩)
  · intro reach reachable room node
    rw [local_.all reach reachable room, reachable]

end Search

/-- Two results of six linked records: the entry point and its other neighbour are evicted. -/
theorem searchLayer_local_of_reload :
    ∃ (index : HnswIndex) (found : List (WithTop Nat × Nat)), index.nodes.length = 6 ∧
      index.linked 0 0 = [1, 4] ∧
      index.searchLayer (ExactLine.host [0, 1, 0, 1]) [5] [0] 2 0 = .ok found ∧
      found.map Prod.snd = [4, 5] ∧
      LayerSearched (ExactLine.host [0, 1, 0, 1]) index [5] 2 0 0 found := by
  have reaches : ∃ index, Reached (ExactLine.host [0, 1, 0, 1]) 1 .euclidean { m := 2 } index ∧
      (decide (index.nodes.length = 6 ∧ index.linked 0 0 = [1, 4]) &&
        (index.nodes[0]?).any (fun held => decide (0 < held.neighbors.length)) &&
        (index.searchLayer (ExactLine.host [0, 1, 0, 1]) [5] [0] 2 0).toOption.any
          (fun found => decide (found.map Prod.snd = [4, 5]))) = true :=
    exists_of_changed { m := 2 } reloadedChanges (by decide +kernel)
  rcases reaches with ⟨index, reached, told⟩
  rcases Bool.and_eq_true_iff.mp told with ⟨told, finds⟩
  rcases Bool.and_eq_true_iff.mp told with ⟨told, enters⟩
  rcases (Option.any_eq_true _ _).mp enters with ⟨held, first, deep⟩
  rcases of_decide_eq_true told with ⟨nodes, edges⟩
  rcases searchLayer_local (ExactLine.host [0, 1, 0, 1]) reached.wellFormed.1.traversable.edges [5]
    (show index.OnLayer 0 0 from ⟨held, first, of_decide_eq_true deep⟩)
    (show 1 ≤ 2 by decide) with ⟨found, result, searched⟩
  rcases ok_of_any finds with ⟨again, resultToo, numbers⟩
  rw [result, Except.ok.injEq] at resultToo
  rw [← resultToo] at numbers
  exact ⟨index, found, nodes, edges, result, of_decide_eq_true numbers, searched⟩

end VectorVault.HnswIndex
