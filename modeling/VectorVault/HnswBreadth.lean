import VectorVault.HnswSameAnswers
import VectorVault.IvfHistories
import VectorVault.Library.BestFirstBreadth

/-! Searches of one graph with a smaller and with a larger `ef_search`.

Both descend to the same node of layer 0. The wider exploration sees whatever the
narrower one sees, so without tombstones and ties none of its answers is later. -/

namespace VectorVault.HnswIndex

open FloatOrder BestFirst
open IvfIndex (candidateRank candidateRank_injective candidateLt_iff)

section Breadth

theorem breadth_mono {k more : UInt32} {query wider : QueryParams} (asked : k ≤ more)
    (broader : query.efSearch ≤ wider.efSearch) : breadth k query ≤ breadth more wider := by
  have counts := UInt32.le_iff_toNat_le.mp asked
  have numbers := UInt32.le_iff_toNat_le.mp broader
  have small : ∀ number : UInt32, number < 1 ↔ number.toNat < 1 :=
    fun number => UInt32.lt_iff_toNat_lt
  simp only [breadth, small]
  split_ifs <;> omega

theorem asked_le_breadth (k : UInt32) (params : QueryParams) : k.toNat ≤ breadth k params :=
  Nat.le_max_right _ _

end Breadth

section Answers

variable {D : Type} [LinearOrder D] [OrderTop D] {host : Host D} {index : HnswIndex}
  {q : List F32} {property : Nat → Prop}

def scored (host : Host D) (index : HnswIndex) (q : List F32) (nodes : List Nat) :
    List (D × Nat) :=
  nodes.map (fun node => (index.score host q node, node))

omit [LinearOrder D] [OrderTop D] in
theorem length_liveOf (clean : index.Untombstoned) (found : List (D × Nat))
    (valid : ∀ item ∈ found, item.2 < index.nodes.length) :
    (index.liveOf found).length = found.length := by
  induction found with
  | nil => rfl
  | cons item rest ih =>
      have there := List.getElem?_eq_getElem (valid item List.mem_cons_self)
      have live := clean _ (List.mem_of_getElem? there)
      have later := ih (fun next member => valid next (List.mem_cons_of_mem _ member))
      rw [liveOf] at later ⊢
      simp only [List.filterMap_cons, there, live, Bool.false_eq_true, if_false, List.length_cons,
        later]

omit [LinearOrder D] [OrderTop D] in
theorem liveOf_append (found others : List (D × Nat)) :
    index.liveOf (found ++ others) = index.liveOf found ++ index.liveOf others :=
  List.filterMap_append

omit [LinearOrder D] [OrderTop D] in
theorem liveOf_distance {found : List (D × Nat)} {candidate : Candidate D}
    (member : candidate ∈ index.liveOf found) : ∃ item ∈ found, candidate.distance = item.1 := by
  rcases List.mem_filterMap.mp member with ⟨item, inside, known⟩
  refine ⟨item, inside, ?_⟩
  split at known
  · split at known
    · cases known
    · rw [Option.some.injEq] at known
      rw [← known]
  · cases known

theorem answers_of_visited {breadth k : Nat} {final : Frontier D Nat} (clean : index.Untombstoned)
    (valid : ∀ node, property node → node < index.nodes.length) (asked : k ≤ breadth)
    (proper : Proper (index.score host q) breadth property final) :
    (sortBy candidateLt (index.liveOf (scored host index q final.visited))).take k =
      (sortBy candidateLt (index.liveOf final.result.reverse)).take k := by
  have structural := proper.structural
  have parts : (scored host index q final.visited).Perm
      (final.result.reverse ++ scored host index q (dropped final)) := by
    have own : (final.result.map Prod.snd).map (fun node => (index.score host q node, node)) =
        final.result := by
      rw [List.map_map]
      calc final.result.map ((fun node => (index.score host q node, node)) ∘ Prod.snd) =
          final.result.map id := by
            apply List.map_congr_left
            intro item member
            simp only [Function.comp, ← (structural.resultItems item member).1, Prod.mk.eta, id_eq]
        _ = final.result := List.map_id _
    have mapped := structural.visited_perm.map (fun node => (index.score host q node, node))
    rw [List.map_append, own] at mapped
    exact mapped.trans ((List.reverse_perm final.result).symm.append_right _)
  have live : (index.liveOf (scored host index q final.visited)).Perm
      (index.liveOf final.result.reverse ++ index.liveOf (scored host index q (dropped final))) := by
    rw [← liveOf_append]
    exact parts.filterMap _
  apply sortBy_take_first candidateLt candidateRank candidateLt_iff candidateRank_injective live
  · intro one inKept other inDropped
    rcases liveOf_distance inKept with ⟨item, kept, isItem⟩
    rcases liveOf_distance inDropped with ⟨beyond, listed, isBeyond⟩
    rcases List.mem_map.mp listed with ⟨node, out, isNode⟩
    have farther := (proper.dropped_farther out).2 item (List.mem_reverse.mp kept)
    have less : one.distance < other.distance := by
      rw [isItem, isBeyond, ← isNode]
      exact farther
    exact (Prod.Lex.toLex_lt_toLex.mpr (Or.inl less)).le
  · intro some_
    rcases List.exists_mem_of_ne_nil _ some_ with ⟨other, inDropped⟩
    rcases liveOf_distance inDropped with ⟨beyond, listed, _⟩
    rcases List.mem_map.mp listed with ⟨node, out, _⟩
    have full := (proper.dropped_farther out).1
    rw [length_liveOf clean, List.length_reverse]
    · exact asked.trans full
    · intro item member
      have seen := (structural.resultItems item (List.mem_reverse.mp member)).2
      exact valid item.2 (structural.reached _ seen)

/-- More answers asked for, or a larger `ef_search`, come with no fewer answers and
none of them later in its place. -/
theorem search_breadth_ahead {dimensionality : UInt32} {metric : DistanceMetric}
    {params : IndexParams} (reached : Reached host dimensionality metric params index)
    (clean : index.Untombstoned)
    (apart : Apart (index.score host q) (fun node => node < index.nodes.length))
    {k more : UInt32} (asked : k ≤ more) {query wider : QueryParams}
    (broader : query.efSearch ≤ wider.efSearch) :
    ∃ few many, index.search host q k query = .ok few ∧
      index.search host q more wider = .ok many ∧ few.length ≤ many.length ∧
      ∀ i (short : i < few.length) (long : i < many.length),
        candidateRank many[i] ≤ candidateRank few[i] := by
  have traversable := reached.wellFormed.1.traversable
  by_cases nothing : index.entryPoint < 0 ∨ k = 0 ∨ index.liveCount = 0
  · rcases search_ok host q more wider traversable with ⟨many, result⟩
    refine ⟨[], many, ?_, result, Nat.zero_le _, ?_⟩
    · rw [search, if_pos nothing]
      rfl
    · intro i short
      exact absurd short (Nat.not_lt_zero i)
  · have nothing' : ¬ (index.entryPoint < 0 ∨ more = 0 ∨ index.liveCount = 0) := by
      rintro (negative | none | empty)
      · exact nothing (Or.inl negative)
      · have zero : k = 0 := by
          rw [none] at asked
          exact UInt32.le_antisymm asked (UInt32.zero_le)
        exact nothing (Or.inr (Or.inl zero))
      · exact nothing (Or.inr (Or.inr empty))
    rcases traversable.descends host q (fun negative => nothing (Or.inl negative)) with
      ⟨current, descended, there⟩
    have closed := traversable.edges.closed 0
    rcases search_spec host q k query nothing descended closed there with
      ⟨final, result, _, explored⟩
    rcases search_spec host q more wider nothing' descended closed there with
      ⟨final', result', _, explored'⟩
    have onBottom : Apart (index.score host q) (index.OnLayer 0) :=
      fun first second ofFirst ofSecond => apart first second ofFirst.valid ofSecond.valid
    have steps : ∀ node, index.OnLayer 0 node → ∀ next ∈ index.linked 0 node, index.OnLayer 0 next :=
      fun node held => (closed node held).2
    have positive := one_le_breadth k query
    have positive' := one_le_breadth more wider
    have mono := breadth_mono asked broader
    have seen := explore_wider mono positive onBottom steps _ _ there explored explored'
    have proper : Proper (index.score host q) (breadth k query) (index.OnLayer 0) final :=
      explore_proper onBottom steps _ ⟨start_structural _ _ current there positive,
        start_ordered _ _ current⟩ explored
    have proper' : Proper (index.score host q) (breadth more wider) (index.OnLayer 0) final' :=
      explore_proper onBottom steps _ ⟨start_structural _ _ current there positive',
        start_ordered _ _ current⟩ explored'
    have visited : final.visited.Subperm final'.visited :=
      List.subperm_of_subset proper.structural.visitedNodup seen
    have within : (index.liveOf (scored host index q final.visited)).Subperm
        (index.liveOf (scored host index q final'.visited)) := by
      rcases visited with ⟨list, same, sub⟩
      exact ⟨index.liveOf (scored host index q list), (same.map _).filterMap _,
        (sub.map _).filterMap _⟩
    have valid : ∀ node, index.OnLayer 0 node → node < index.nodes.length :=
      fun node held => held.valid
    rw [← answers_of_visited clean valid (asked_le_breadth k query) proper] at result
    rw [← answers_of_visited clean valid (asked_le_breadth more wider) proper'] at result'
    have ahead := sortBy_take_ahead candidateLt candidateRank candidateLt_iff
      candidateRank_injective within k.toNat
    have counts := UInt32.le_iff_toNat_le.mp asked
    refine ⟨_, _, result, result', ?_, ?_⟩
    · have lengths := ahead.1
      rw [List.length_take, List.length_take] at lengths ⊢
      omega
    · intro i short long
      have soon := short
      rw [List.length_take] at soon
      have atMost := ahead.2 i short (lt_of_lt_of_le short ahead.1)
      rw [List.getElem_take] at atMost ⊢
      exact atMost

end Answers

theorem apart_below {E : Type} {dist : Nat → E} {count : Nat}
    (table : ∀ first < count, ∀ second < count, dist first = dist second → first = second) :
    Apart dist (fun node => node < count) :=
  fun first second inFirst inSecond => table first inFirst second inSecond

theorem search_breadth_ahead_of_two_records :
    ∃ (index : HnswIndex) (few many : List (Candidate (WithTop Nat))), index.nodes.length = 2 ∧
      index.search (ExactLine.host []) [1] 1 { efSearch := 1 } = .ok few ∧
      index.search (ExactLine.host []) [1] 2 { efSearch := 4 } = .ok many ∧
      few.length ≤ many.length ∧
      ∀ i (short : i < few.length) (long : i < many.length),
        candidateRank many[i] ≤ candidateRank few[i] := by
  have one : Reached (ExactLine.host []) 1 .euclidean {} _ :=
    Reached.add [97] [0] Reached.new rfl (by decide)
  have two := Reached.add [98] [5] one rfl (by decide)
  rcases @search_breadth_ahead (WithTop Nat) _ _ (ExactLine.host []) _ [1] _ _ _ two (by decide)
      (apart_below (by decide))
      1 2 (by decide)
      { efSearch := 1 } { efSearch := 4 } (by decide) with ⟨few, many, rest⟩
  exact ⟨_, few, many, rfl, rest⟩

/-- Four nodes on the line, the two nearest to 0 deleted and behind the farthest. -/
def shadowed : HnswIndex :=
  { new 1 .euclidean {} with
    nodes := [⟨[1], [4], 0, false, [[1]]⟩, ⟨[2], [6], 0, false, [[0, 2, 3]]⟩,
      ⟨[3], [1], 0, true, [[1]]⟩, ⟨[4], [2], 0, true, [[1]]⟩]
    entryPoint := 0
    maxLevel := 0
    liveCount := 2 }

-- With tombstones a wider search may come back with less: they fill its result.
example : (shadowed.search (ExactLine.host []) [0] 1 { efSearch := 1 }).map List.length = .ok 1 ∧
    (shadowed.search (ExactLine.host []) [0] 1 { efSearch := 2 }).map List.length = .ok 0 := by
  decide

end VectorVault.HnswIndex
