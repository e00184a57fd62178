import VectorVault.HnswReached
import VectorVault.Library.BestFirstOrder

/-! Answers before and after a reload.

An index without removed nodes is read back with the same nodes, edges and
distances under other numbers. When its entry point is the one the region names
and no two distances are equal, both indexes answer a query alike. -/

namespace VectorVault.HnswIndex

open FloatOrder BestFirst GreedyDescent

def Untombstoned (index : HnswIndex) : Prop :=
  ∀ node ∈ index.nodes, node.deleted = false

/-- The entry point has the smallest identifier among the tallest nodes. -/
def Elected (index : HnswIndex) : Prop :=
  ∀ (entry : Nat) (held : HnswNode), index.entryPoint = entry → index.nodes[entry]? = some held →
    ∀ other ∈ index.nodes, other.topLayer = held.topLayer → held.id ≤ other.id

instance (index : HnswIndex) : Decidable index.Untombstoned :=
  inferInstanceAs (Decidable (∀ node ∈ index.nodes, node.deleted = false))

instance (index : HnswIndex) : Decidable index.Elected :=
  decidable_of_iff (0 ≤ index.entryPoint → ∀ held ∈ index.nodes[index.entryPoint.toNat]?,
      ∀ other ∈ index.nodes, other.topLayer = held.topLayer → held.id ≤ other.id) <| by
    constructor
    · intro checked entry held isEntry found
      apply checked (by omega) held
      rw [isEntry, Int.toNat_natCast]
      exact found
    · intro elected positive held found
      exact elected index.entryPoint.toNat held (Int.toNat_of_nonneg positive).symm found

def Supplied (index : HnswIndex) (vectorFor : RecordId → Option (List F32)) : Prop :=
  ∀ node ∈ index.nodes, vectorFor node.id = some node.vector

def renumber (index : HnswIndex) (node : Nat) : Nat := (index.canonical node).getD 0

section Same

variable {D : Type} [FloatOrder D] {host : Host D} {index : HnswIndex}
  (wellFormed : index.WellFormed) (small : index.nodes.length < 2 ^ 31)
  (clean : index.Untombstoned) (dimensionality : UInt32)
  {vectorFor : RecordId → Option (List F32)} (supplied : index.Supplied vectorFor)

theorem liveNodes_renumber (clean : index.Untombstoned) {node : Nat} {held : HnswNode}
    (found : index.nodes[node]? = some held) :
    index.canonical node = some (index.renumber node) ∧
      index.liveNodes[index.renumber node]? = some (held, node) := by
  have live := (mem_liveNodes held node).mpr ⟨found, clean held (List.mem_of_getElem? found)⟩
  obtain ⟨c, there⟩ := List.getElem?_of_mem live
  have known : index.canonical node = some c := by
    rw [canonical_eq_some, List.getElem?_map, there]
    rfl
  have same : index.renumber node = c := by
    rw [renumber, known, Option.getD_some]
  rw [same]
  exact ⟨known, there⟩

include wellFormed clean supplied in
theorem reloaded_score (q : List F32) {node : Nat} (valid : node < index.nodes.length) :
    (index.reloaded dimensionality index.metric vectorFor).score host q (index.renumber node) =
      index.score host q node := by
  have found := List.getElem?_eq_getElem valid
  obtain ⟨_, there⟩ := liveNodes_renumber clean found
  obtain ⟨loaded, isLoaded, _, _, _, vector, _⟩ :=
    reloaded_get wellFormed.writable dimensionality index.metric vectorFor there
  have metric : (index.reloaded dimensionality index.metric vectorFor).metric = index.metric :=
    (load_fixed dimensionality index.metric vectorFor index.canonicalForm).2.2.2.2.2.2
  have known := supplied _ (List.mem_of_getElem? found)
  rw [known, Option.getD_some] at vector
  simp only [score, found, isLoaded, metric, vector]

include wellFormed small clean in
theorem mem_reloaded_linked (metric : DistanceMetric) {node layer : Nat}
    (there : index.OnLayer layer node) (c : Nat) :
    c ∈ (index.reloaded dimensionality metric vectorFor).linked layer (index.renumber node) ↔
      ∃ next ∈ index.linked layer node, index.renumber next = c := by
  obtain ⟨held, found, long⟩ := there
  obtain ⟨_, live⟩ := liveNodes_renumber clean found
  have lists := wellFormed.traversable.lists held (List.mem_of_getElem? found)
  have atMost : layer ≤ held.topLayer := by omega
  rw [reloaded_linked small dimensionality metric vectorFor, live]
  simp only [if_pos atMost]
  rw [(remapped_live wellFormed (List.mem_of_getElem? live) atMost).2 c]
  have numbers : ∀ next ∈ index.linked layer node,
      (index.canonical next = some c ↔ index.renumber next = c) := by
    intro next member
    have valid := (wellFormed.traversable.edges layer node next member).valid
    rw [(liveNodes_renumber clean (List.getElem?_eq_getElem valid)).1, Option.some.injEq]
  constructor
  · intro edge
    obtain ⟨next, member, known⟩ := edge
    exact ⟨next, member, (numbers next member).mp known⟩
  · intro edge
    obtain ⟨next, member, same⟩ := edge
    exact ⟨next, member, (numbers next member).mpr same⟩

include wellFormed clean in
theorem reloaded_onLayer (metric : DistanceMetric) {node layer : Nat}
    (there : index.OnLayer layer node) :
    (index.reloaded dimensionality metric vectorFor).OnLayer layer (index.renumber node) := by
  obtain ⟨held, found, long⟩ := there
  obtain ⟨_, live⟩ := liveNodes_renumber clean found
  have lists := wellFormed.traversable.lists held (List.mem_of_getElem? found)
  obtain ⟨loaded, isLoaded, _, _, _, _, length⟩ :=
    reloaded_get wellFormed.writable dimensionality metric vectorFor live
  exact ⟨loaded, isLoaded, by omega⟩

include wellFormed small clean in
theorem reloaded_elected (metric : DistanceMetric) (elected : index.Elected)
    (some_ : index.nodes ≠ []) :
    ∃ entry : Nat, index.entryPoint = entry ∧ entry < index.nodes.length ∧
      (index.reloaded dimensionality metric vectorFor).entryPoint = index.renumber entry ∧
      (index.reloaded dimensionality metric vectorFor).maxLevel = index.maxLevel := by
  obtain ⟨entry, held, isEntry, found, isMax, highest⟩ := wellFormed.top some_
  obtain ⟨_, live⟩ := liveNodes_renumber clean found
  have listed : index.liveNodes ≠ [] := List.ne_nil_of_mem (List.mem_of_getElem? live)
  obtain ⟨c, node, number, there, entryPoint, maxLevel, highestLive, first⟩ :=
    reloaded_entry wellFormed.writable small dimensionality metric vectorFor listed
  have nodeFound := ((mem_liveNodes node number).mp (List.mem_of_getElem? there)).1
  have nodeIn := List.mem_of_getElem? nodeFound
  have tops : node.topLayer = held.topLayer :=
    le_antisymm (highest node nodeIn) (highestLive (held, entry) (List.mem_of_getElem? live))
  have smallest := elected entry held isEntry found node nodeIn tops
  have ascending := liveNodes_ascending wellFormed.ids
  have same : c = index.renumber entry := by
    rcases lt_trichotomy c (index.renumber entry) with before | equal | after
    · -- An earlier node has a smaller identifier than the elected one.
      have less := (List.pairwise_iff_getElem.mp ascending) c (index.renumber entry)
        (by rw [List.length_map]; exact (List.getElem?_eq_some_iff.mp there).1)
        (by rw [List.length_map]; exact (List.getElem?_eq_some_iff.mp live).1) before
      simp only [List.getElem_map, (List.getElem?_eq_some_iff.mp there).2,
        (List.getElem?_eq_some_iff.mp live).2] at less
      exact absurd less smallest.not_gt
    · exact equal
    · have shorter := first (index.renumber entry) (held, entry) after live
      simp only at shorter
      omega
  have valid := (List.getElem?_eq_some_iff.mp found).1
  exact ⟨entry, isEntry, valid, by rw [entryPoint, same], by rw [maxLevel, tops, isMax]⟩

omit [FloatOrder D] in
include wellFormed clean in
theorem reloaded_liveOf (found : List (D × Nat))
    (valid : ∀ item ∈ found, item.2 < index.nodes.length) :
    (index.reloaded dimensionality index.metric vectorFor).liveOf
        (found.map (fun item => (item.1, index.renumber item.2))) = index.liveOf found := by
  rw [liveOf, liveOf, List.filterMap_map]
  apply List.filterMap_congr
  intro item member
  have there := List.getElem?_eq_getElem (valid item member)
  obtain ⟨_, live⟩ := liveNodes_renumber clean there
  obtain ⟨loaded, isLoaded, named, _, alive, _⟩ :=
    reloaded_get wellFormed.writable dimensionality index.metric vectorFor live
  simp only [Function.comp, isLoaded, there, alive, named,
    clean _ (List.mem_of_getElem? there), Bool.false_eq_true, if_false]

include wellFormed in
theorem reloaded_liveCount : (index.reloaded dimensionality index.metric vectorFor).liveCount =
    index.liveCount := by
  calc index.canonicalForm.nodes.length = index.liveNodes.length := canonicalForm_length index
    _ = (index.nodes.zipIdx.filter (fun entry => !entry.1.deleted)).length := length_sortBy _ _
    _ = index.nodes.zipIdx.countP (fun entry => !entry.1.deleted) :=
        List.countP_eq_length_filter.symm
    _ = (index.nodes.zipIdx.map Prod.fst).countP Live := by
        rw [List.countP_map]
        rfl
    _ = index.liveCount := by rw [List.zipIdx_map_fst, wellFormed.liveCount]

end Same

section Answers

variable {D : Type} [LinearOrder D] [OrderTop D] {host : Host D} {index : HnswIndex}
  (wellFormed : index.WellFormed) (small : index.nodes.length < 2 ^ 31)
  (clean : index.Untombstoned) (dimensionality : UInt32)
  {vectorFor : RecordId → Option (List F32)} (supplied : index.Supplied vectorFor)
  {q : List F32} (apart : Apart (index.score host q) (fun node => node < index.nodes.length))

include wellFormed small clean supplied apart

theorem reloaded_renaming (layer : Nat) :
    Renaming (index.score host q)
      ((index.reloaded dimensionality index.metric vectorFor).score host q) (index.linked layer)
      ((index.reloaded dimensionality index.metric vectorFor).linked layer) (index.OnLayer layer)
      index.renumber := by
  constructor
  · exact fun node _ next edge => wellFormed.traversable.edges layer node next edge
  · exact fun node there => reloaded_score wellFormed clean dimensionality supplied q there.valid
  · exact fun node there next =>
      mem_reloaded_linked wellFormed small clean dimensionality index.metric there next
  · exact fun first second ofFirst ofSecond same =>
      apart first second ofFirst.valid ofSecond.valid same

theorem reloaded_greedyDescend {layer entry : Nat} (there : index.OnLayer layer entry) :
    ∃ final, index.greedyDescend host q entry layer = .ok final ∧ index.OnLayer layer final ∧
      (index.reloaded dimensionality index.metric vectorFor).greedyDescend host q
        (index.renumber entry) layer = .ok (index.renumber final) := by
  have names := reloaded_renaming wellFormed small clean dimensionality supplied apart layer
  have edges := (reloaded_wellFormed wellFormed small dimensionality index.metric
    vectorFor).traversable.edges
  obtain ⟨final, computed, arrived, found⟩ := greedyDescend_spec host q
    (wellFormed.traversable.edges.closed layer) there
  obtain ⟨final', computed', _, found'⟩ := greedyDescend_spec host q (edges.closed layer)
    (reloaded_onLayer wellFormed clean dimensionality index.metric there)
  rw [names.same entry there] at found'
  have same := descend_rename _ _ _ _ index.renumber (index.OnLayer layer) names.closed names.same
    names.edges names.apart _ _ entry final final' there found found'
  rw [same] at computed'
  exact ⟨final, computed, arrived, computed'⟩

theorem reloaded_descendLayers (steps current : Nat) (there : index.OnLayer steps current) :
    ∃ final, index.descendLayers host q 0 steps current = .ok final ∧ index.OnLayer 0 final ∧
      (index.reloaded dimensionality index.metric vectorFor).descendLayers host q 0 steps
        (index.renumber current) = .ok (index.renumber final) := by
  induction steps generalizing current with
  | zero => exact ⟨current, rfl, there, rfl⟩
  | succ steps ih =>
      have here : index.OnLayer (0 + (steps + 1)) current := by
        rw [Nat.zero_add]
        exact there
      obtain ⟨next, computed, arrived, computed'⟩ :=
        reloaded_greedyDescend wellFormed small clean dimensionality supplied apart here
      obtain ⟨final, rest, last, rest'⟩ := ih next (arrived.below (by omega))
      have unfolded : index.descendLayers host q 0 (steps + 1) current = .ok final := by
        rw [descendLayers, computed]
        exact rest
      refine ⟨final, unfolded, last, ?_⟩
      rw [descendLayers, computed']
      exact rest'

theorem search_reloaded (elected : index.Elected) (k : UInt32) (params : QueryParams) :
    ∃ candidates, index.search host q k params = .ok candidates ∧
      (index.reloaded dimensionality index.metric vectorFor).search host q k params =
        .ok candidates := by
  have reloadedWellFormed := reloaded_wellFormed wellFormed small dimensionality index.metric
    vectorFor
  have counts := @reloaded_liveCount index wellFormed dimensionality vectorFor
  by_cases nothing : index.entryPoint < 0 ∨ k = 0 ∨ index.liveCount = 0
  · have nothing' : k = 0 ∨ index.liveCount = 0 := by
      rcases nothing with negative | rest
      · right
        have none : index.nodes = [] := by
          by_contra some_
          obtain ⟨entry, _, isEntry, _⟩ := wellFormed.top some_
          omega
        rw [wellFormed.liveCount, none]
        rfl
      · exact rest
    refine ⟨[], ?_, ?_⟩
    · rw [search, if_pos nothing]
      rfl
    · rw [search, counts, if_pos (Or.inr nothing')]
      rfl
  · have some_ : index.nodes ≠ [] := by
      intro none
      apply nothing
      right
      right
      rw [wellFormed.liveCount, none]
      rfl
    obtain ⟨entry, isEntry, _, isEntry', maxLevel⟩ :=
      @reloaded_elected index wellFormed small clean dimensionality vectorFor index.metric elected
        some_
    obtain ⟨top, held, isTop, found, isMax, _⟩ := wellFormed.top some_
    have same : top = entry := by omega
    rw [same] at found
    have there : index.OnLayer index.maxLevel.toNat entry :=
      wellFormed.traversable.onLayer_of found (by omega)
    obtain ⟨current, descended, arrived, descended'⟩ := reloaded_descendLayers wellFormed small
      clean dimensionality supplied apart _ entry there
    have onBottom : (index.reloaded dimensionality index.metric vectorFor).OnLayer 0
        (index.renumber current) :=
      reloaded_onLayer wellFormed clean dimensionality index.metric arrived
    have shape' : ¬ ((index.reloaded dimensionality index.metric vectorFor).entryPoint < 0 ∨ k = 0 ∨
        (index.reloaded dimensionality index.metric vectorFor).liveCount = 0) := by
      rw [isEntry', counts]
      rintro (negative | none)
      · omega
      · exact nothing (Or.inr none)
    obtain ⟨final, result, structural, explored⟩ := search_spec host q k params nothing
      (by rw [isEntry, Int.toNat_natCast]; exact descended)
      (wellFormed.traversable.edges.closed 0) arrived
    obtain ⟨final', result', _, explored'⟩ := search_spec host q k params shape'
      (by rw [isEntry', maxLevel, Int.toNat_natCast]; exact descended')
      (reloadedWellFormed.traversable.edges.closed 0) onBottom
    have renamed := explore_rename (reloaded_renaming wellFormed small clean dimensionality supplied
      apart 0) _ _ (one_le_breadth k params) arrived explored explored'
    have valid : ∀ item ∈ final.result.reverse, item.2 < index.nodes.length := by
      intro item member
      have seen := (structural.resultItems item (List.mem_reverse.mp member)).2
      exact (structural.reached _ seen).valid
    rw [renamed, ← List.map_reverse,
      reloaded_liveOf wellFormed clean dimensionality _ valid] at result'
    exact ⟨_, result, result'⟩

end Answers

end VectorVault.HnswIndex
