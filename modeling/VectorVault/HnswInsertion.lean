import VectorVault.HnswLinking

/-! Insertion, removal and search on an index that traversals never leave.

`Traversable` is what the loops need: every node has its lists, edges stay on
their layer, the entry point has the layers the descent starts from. Under it
each operation runs through, and keeps it. -/

namespace VectorVault.HnswIndex

open FloatOrder BestFirst

variable {D : Type} [FloatOrder D] (host : Host D)
variable {index : HnswIndex} {nodeId : Nat}

section Layers

variable (q : List F32) {start : HnswIndex}

def otherOnLayer (start : HnswIndex) (nodeId layer node : Nat) : Prop :=
  start.OnLayer layer node ∧ node ≠ nodeId

theorem otherOnLayer_closed {layer : Nat} (rewired : Rewired start index)
    (edges : index.EdgesOnLayer) (fresh : ∀ n, nodeId ∉ index.linked layer n) :
    index.Closed layer (start.otherOnLayer nodeId layer) := by
  intro node held
  have onLayer := (rewired.onLayer_iff layer node).mpr held.1
  have kept : ∀ next ∈ index.linked layer node, start.otherOnLayer nodeId layer next := by
    intro next member
    have there := (rewired.onLayer_iff layer next).mp (edges layer node next member)
    exact ⟨there, fun same => fresh node (same ▸ member)⟩
  exact ⟨onLayer, kept⟩

/-- `connectLayers`, with the candidates it finds put in front of those of the
layers above. -/
def connectFound (q : List F32) (nodeId : Nat) : Nat → HnswIndex → Nat → List (List (D × Nat)) →
    Run (HnswIndex × List (List (D × Nat)))
  | 0, index, _, searched => return (index, searched)
  | layer + 1, index, current, searched => do
      let found ← index.searchLayer host q [current] index.efConstruction.toNat layer
      let connected ← index.connectNode host nodeId found layer
      connectFound q nodeId layer connected
        (match found with
        | nearest :: _ => nearest.2
        | [] => current) (found :: searched)

theorem connectLayers_eq (layers : Nat) (index : HnswIndex) (current : Nat)
    (searched : List (List (D × Nat))) :
    connectLayers host q nodeId layers index current =
      Prod.fst <$> connectFound host q nodeId layers index current searched := by
  induction layers generalizing index current searched with
  | zero => rfl
  | succ layer ih =>
      rw [connectLayers, connectFound]
      cases index.searchLayer host q [current] index.efConstruction.toNat layer with
      | error fault => rfl
      | ok found =>
          simp only [bind, Except.bind]
          cases index.connectNode host nodeId found layer with
          | error fault => rfl
          | ok connected => exact ih connected _ (found :: searched)

/-- Induction rule for linking a new node layer by layer, from the top down, with
the candidates of each layer at hand. -/
theorem connectFound_spec (invariant : Nat → List (List (D × Nat)) → HnswIndex → Prop)
    (explores : 1 ≤ start.efConstruction.toNat)
    (step : ∀ layer selected found searched before after, Rewired start before →
      ConnectStep nodeId layer selected before after → found ≠ [] →
      (1 ≤ before.maxNeighborsForLayer layer → ∀ nearest rest,
        sortBy keyedLt found = nearest :: rest → nearest.2 ∈ selected) →
      invariant (layer + 1) searched before → invariant layer (found :: searched) after)
    (layers : Nat) (index : HnswIndex) (current : Nat) (searched : List (List (D × Nat)))
    (own : ∀ layer < layers, start.OnLayer layer nodeId)
    (rewired : Rewired start index) (edges : index.EdgesOnLayer)
    (alone : ∀ layer < layers, index.linked layer nodeId = [])
    (fresh : ∀ layer < layers, ∀ n, nodeId ∉ index.linked layer n)
    (entry : ∀ layer < layers, start.otherOnLayer nodeId layer current)
    (holds : invariant layers searched index) :
    ∃ after all, connectFound host q nodeId layers index current searched = .ok (after, all) ∧
      Rewired start after ∧ after.EdgesOnLayer ∧ invariant 0 all after := by
  induction layers generalizing index current searched with
  | zero => exact ⟨index, searched, rfl, rewired, edges, holds⟩
  | succ layer ih =>
      have now : layer < layer + 1 := Nat.lt_succ_self layer
      have breadth : 1 ≤ index.efConstruction.toNat := by
        rw [rewired.rest]
        exact explores
      obtain ⟨final, searchedLayer, structural, _⟩ := searchLayer_spec host q
        (otherOnLayer_closed rewired edges (fresh layer now)) (entry layer now) breadth
      have known : ∀ item ∈ final.result.reverse, item.2 ≠ nodeId ∧ index.OnLayer layer item.2 := by
        intro item member
        have reached := structural.reached _
          (structural.resultItems item (List.mem_reverse.mp member)).2
        exact ⟨reached.2, (rewired.onLayer_iff layer item.2).mpr reached.1⟩
      have nodup : (final.result.reverse.map Prod.snd).Nodup := by
        rw [List.map_reverse, List.nodup_reverse]
        exact structural.resultNodup
      have some_ : final.result.reverse ≠ [] := by
        intro empty
        have lengths := congrArg List.length empty
        have nonempty := structural.resultSome
        rw [List.length_reverse, List.length_nil] at lengths
        omega
      obtain ⟨selected, connected, computed, connect, head⟩ := connectNode_spec host
        ((rewired.onLayer_iff layer nodeId).mpr (own layer now)) edges (alone layer now)
        (fresh layer now) known nodup some_
      obtain ⟨nearest, rest, shape⟩ := List.exists_cons_of_ne_nil some_
      have nearestOn : start.otherOnLayer nodeId layer nearest.2 := by
        have facts := known nearest (by rw [shape]; exact List.mem_cons_self)
        exact ⟨(rewired.onLayer_iff layer nearest.2).mp facts.2, facts.1⟩
      have below : ∀ l < layer, ∀ n, connected.linked l n = index.linked l n :=
        fun l less n => connect.elsewhere l n (fun both => by omega)
      have held := step layer selected _ searched index connected rewired connect some_ head holds
      obtain ⟨after, all, later, rewiredOn, edgesOn, kept⟩ := ih connected nearest.2
        (final.result.reverse :: searched)
        (fun l less => own l (by omega)) (rewired.trans connect.rewired) connect.edges
        (fun l less => by rw [below l less]; exact alone l (by omega))
        (fun l less n => by rw [below l less]; exact fresh l (by omega) n)
        (fun l less => ⟨nearestOn.1.below (by omega), nearestOn.2⟩) held
      have result : connectFound host q nodeId (layer + 1) index current searched =
          .ok (after, all) := by
        rw [connectFound, searchedLayer]
        simp only [bind, Except.bind, shape] at computed later ⊢
        rw [computed]
        exact later
      exact ⟨after, all, result, rewiredOn, edgesOn, kept⟩

end Layers

structure Traversable (index : HnswIndex) : Prop where
  lists : ∀ node ∈ index.nodes, node.neighbors.length = node.topLayer + 1
  edges : index.EdgesOnLayer
  entry : index.entryPoint < 0 ∨
    ∃ (entry : Nat) (held : HnswNode), index.entryPoint = entry ∧
      index.nodes[entry]? = some held ∧ index.maxLevel ≤ held.topLayer
  directory : ∀ id node, index.idToInternal.find? id = some node → node < index.nodes.length
  explores : 1 ≤ index.efConstruction.toNat

namespace Traversable

theorem onLayer_of (traversable : index.Traversable) {node layer : Nat} {held : HnswNode}
    (found : index.nodes[node]? = some held) (atMost : layer ≤ held.topLayer) :
    index.OnLayer layer node := by
  have length := traversable.lists held (List.mem_of_getElem? found)
  exact ⟨held, found, by omega⟩

theorem onLayer_iff (traversable : index.Traversable) (layer node : Nat) :
    index.OnLayer layer node ↔
      ∃ held, index.nodes[node]? = some held ∧ layer ≤ held.topLayer := by
  constructor
  · intro there
    obtain ⟨held, found, long⟩ := there
    have length := traversable.lists held (List.mem_of_getElem? found)
    exact ⟨held, found, by omega⟩
  · intro there
    obtain ⟨held, found, atMost⟩ := there
    exact traversable.onLayer_of found atMost

theorem held_of (traversable : index.Traversable) {id : RecordId} {node : Nat}
    (known : index.idToInternal.find? id = some node) :
    ∃ held, index.nodes[node]? = some held :=
  ⟨_, List.getElem?_eq_getElem (traversable.directory id node known)⟩

end Traversable

theorem new_traversable (dimensionality : UInt32) (metric : DistanceMetric)
    (params : IndexParams) : (new dimensionality metric params).Traversable := by
  have none : ∀ layer node, (new dimensionality metric params).linked layer node = [] := by
    intro layer node
    simp [linked, new]
  have explores : 1 ≤ (new dimensionality metric params).efConstruction.toNat := by
    simp only [new]
    split
    · decide
    · next large =>
        rw [UInt32.lt_iff_toNat_lt] at large
        simp only [UInt32.toNat_one] at large
        omega
  constructor
  · intro node member
    cases member
  · intro layer node next member
    rw [none] at member
    cases member
  · left
    simp [new]
  · intro id node held
    simp [new] at held
  · exact explores

section Append

variable (index) (id : RecordId) (vec : List F32) (level : Nat)

theorem appendNode_get (node : Nat) :
    (index.appendNode id vec level).nodes[node]? =
      if node = index.nodes.length
      then some ⟨id, vec, level, false, List.replicate (level + 1) []⟩
      else index.nodes[node]? := by
  simp only [appendNode]
  by_cases last : node = index.nodes.length
  · simp [last]
  · rw [if_neg last]
    rcases Nat.lt_or_ge node index.nodes.length with inside | outside
    · exact List.getElem?_append_left inside
    · rw [List.getElem?_eq_none (by simp; omega), List.getElem?_eq_none outside]

theorem linked_appendNode (layer node : Nat) :
    (index.appendNode id vec level).linked layer node = index.linked layer node := by
  simp only [linked, appendNode_get]
  by_cases last : node = index.nodes.length
  · simp only [last, if_true, List.getElem?_replicate]
    rw [List.getElem?_eq_none (le_refl _)]
    split <;> rfl
  · rw [if_neg last]

theorem onLayer_appendNode (layer node : Nat) :
    (index.appendNode id vec level).OnLayer layer node ↔
      index.OnLayer layer node ∨ node = index.nodes.length ∧ layer ≤ level := by
  simp only [OnLayer, appendNode_get]
  by_cases last : node = index.nodes.length
  · rw [if_pos last, last, List.getElem?_eq_none (le_refl _)]
    simp only [Option.some.injEq, exists_eq_left', List.length_replicate, reduceCtorEq, false_and,
      exists_false, false_or, true_and]
    omega
  · simp [last]

end Append

theorem Traversable.fresh (traversable : index.Traversable) (layer node : Nat) :
    index.nodes.length ∉ index.linked layer node := by
  intro member
  have valid := (traversable.edges layer node _ member).valid
  omega

theorem Traversable.appendNode_edges (traversable : index.Traversable) (id : RecordId)
    (vec : List F32) (level : Nat) : (index.appendNode id vec level).EdgesOnLayer := by
  intro layer node next member
  rw [linked_appendNode] at member
  exact (onLayer_appendNode index id vec level layer next).mpr
    (Or.inl (traversable.edges layer node next member))

/-- The last step of an insertion: a taller node takes over as the entry point. -/
def crowned (index : HnswIndex) (nodeId level : Nat) : HnswIndex :=
  if index.entryPoint < 0 ∨ (level : Int) > index.maxLevel
  then { index with entryPoint := nodeId, maxLevel := level }
  else index

theorem crowned_nodes (index : HnswIndex) (nodeId level : Nat) :
    (index.crowned nodeId level).nodes = index.nodes := by
  unfold crowned
  split <;> rfl

/-- The candidates an insertion finds on the layers it links its node on, layer 0
first. -/
def insertFound (index : HnswIndex) (id : RecordId) (vec : List F32) (level : Nat) :
    Run (List (List (D × Nat))) :=
  let appended := index.appendNode id vec level
  if appended.entryPoint < 0 then return []
  else do
    let current ← appended.descendLayers host vec level (appended.maxLevel - level).toNat
      appended.entryPoint.toNat
    let connected ← connectFound host vec index.nodes.length
      (min (level : Int) appended.maxLevel + 1).toNat appended current []
    return connected.2

theorem insertion_descends (traversable : index.Traversable) (id : RecordId) (vec : List F32)
    (level : Nat) {entry : Nat} {held : HnswNode} (found : index.nodes[entry]? = some held)
    (atMost : index.maxLevel ≤ held.topLayer) :
    ∃ current,
      (index.appendNode id vec level).descendLayers host vec level
        (index.maxLevel - level).toNat entry = .ok current ∧
      ∀ layer < (min (level : Int) index.maxLevel + 1).toNat,
        (index.appendNode id vec level).otherOnLayer index.nodes.length layer current := by
  have edges := traversable.appendNode_edges id vec level
  have notNew : entry ≠ index.nodes.length := ((List.getElem?_eq_some_iff.mp found).1).ne
  have entryOn : ∀ layer : Nat, (layer : Int) ≤ index.maxLevel ∨ layer = 0 →
      (index.appendNode id vec level).otherOnLayer index.nodes.length layer entry := by
    intro layer low
    have there := traversable.onLayer_of found (show layer ≤ held.topLayer by omega)
    exact ⟨(onLayer_appendNode index id vec level layer entry).mpr (Or.inl there), notNew⟩
  have closed : ∀ layer, (index.appendNode id vec level).Closed layer
      ((index.appendNode id vec level).otherOnLayer index.nodes.length layer) := by
    intro layer
    apply otherOnLayer_closed (Rewired.refl _) edges
    intro n
    rw [linked_appendNode]
    exact traversable.fresh layer n
  by_cases tall : index.maxLevel ≤ level
  · have steps : (index.maxLevel - level).toNat = 0 := by omega
    rw [steps]
    exact ⟨entry, rfl, fun layer less => entryOn layer (by omega)⟩
  · rcases descendLayers_spec host vec closed
      (fun layer lower node held below => ⟨held.1.below below, held.2⟩) level
      (index.maxLevel - level).toNat entry (entryOn _ (by omega)) with ⟨current, computed, there⟩
    exact ⟨current, computed, fun layer less => ⟨there.1.below (by omega), there.2⟩⟩

/-- Induction rule for inserting a node: it is appended, linked layer by layer to
the candidates found, and crowned when it is the tallest. -/
theorem insertFound_spec (traversable : index.Traversable) (id : RecordId) (vec : List F32)
    (level : Nat) (invariant : Nat → List (List (D × Nat)) → HnswIndex → Prop)
    (first : index.entryPoint < 0 → invariant 0 [] (index.appendNode id vec level))
    (begins : ¬ index.entryPoint < 0 →
      invariant (min (level : Int) index.maxLevel + 1).toNat [] (index.appendNode id vec level))
    (step : ∀ layer selected found searched before after,
      Rewired (index.appendNode id vec level) before →
      ConnectStep index.nodes.length layer selected before after → found ≠ [] →
      (1 ≤ before.maxNeighborsForLayer layer → ∀ nearest rest,
        sortBy keyedLt found = nearest :: rest → nearest.2 ∈ selected) →
      invariant (layer + 1) searched before → invariant layer (found :: searched) after) :
    ∃ connected searched, index.insertNode host id vec level =
        .ok (connected.crowned index.nodes.length level) ∧
      index.insertFound host id vec level = .ok searched ∧
      Rewired (index.appendNode id vec level) connected ∧ connected.EdgesOnLayer ∧
      invariant 0 searched connected := by
  have edges := traversable.appendNode_edges id vec level
  rcases traversable.entry with negative | ⟨entry, held, isEntry, found, atMost⟩
  · have result : index.insertNode host id vec level =
        .ok ((index.appendNode id vec level).crowned index.nodes.length level) := by
      have guard : (index.appendNode id vec level).entryPoint < 0 := negative
      simp only [insertNode, crowned, guard, true_or, if_true]
      rfl
    have found : index.insertFound host id vec level = .ok [] := by
      have guard : (index.appendNode id vec level).entryPoint < 0 := negative
      simp only [insertFound, guard, if_true]
      rfl
    exact ⟨_, [], result, found, Rewired.refl _, edges, first negative⟩
  · have started : ¬ index.entryPoint < 0 := by omega
    have appendedEntry : (index.appendNode id vec level).entryPoint = entry := isEntry
    have appendedMax : (index.appendNode id vec level).maxLevel = index.maxLevel := rfl
    rcases insertion_descends host traversable id vec level found atMost with
      ⟨current, descended, currentOn⟩
    obtain ⟨connected, searched, recorded, rewired, edgesOn, kept⟩ := connectFound_spec host vec
      invariant
      (show 1 ≤ (index.appendNode id vec level).efConstruction.toNat from traversable.explores)
      step (min (level : Int) index.maxLevel + 1).toNat
      (index.appendNode id vec level) current []
      (fun layer less => (onLayer_appendNode index id vec level layer _).mpr
        (Or.inr ⟨rfl, by omega⟩))
      (Rewired.refl _) edges
      (fun layer _ => by
        rw [linked_appendNode, linked, List.getElem?_eq_none (le_refl _)])
      (fun layer _ n => by
        rw [linked_appendNode]
        exact traversable.fresh layer n)
      currentOn (begins started)
    have guard : ¬ (index.appendNode id vec level).entryPoint < 0 := by
      rw [appendedEntry]
      omega
    have linkedAll : connectLayers host vec index.nodes.length
        (min (level : Int) index.maxLevel + 1).toNat (index.appendNode id vec level) current =
          .ok connected := by
      rw [connectLayers_eq host vec _ _ _ [], recorded]
      rfl
    have found : index.insertFound host id vec level = .ok searched := by
      simp only [insertFound, if_neg guard]
      rw [appendedEntry, appendedMax, Int.toNat_natCast, descended]
      simp only [bind, Except.bind, recorded]
      rfl
    have result : index.insertNode host id vec level =
        .ok (connected.crowned index.nodes.length level) := by
      have guardToo : ¬ connected.entryPoint < 0 := by
        rw [rewired.rest]
        exact guard
      simp only [insertNode, if_neg guard]
      rw [appendedEntry, appendedMax, Int.toNat_natCast, descended]
      simp only [bind, Except.bind, linkedAll, crowned, guardToo, false_or]
      split <;> rfl
    exact ⟨connected, searched, result, found, rewired, edgesOn, kept⟩

theorem insertNode_spec (traversable : index.Traversable) (id : RecordId) (vec : List F32)
    (level : Nat) (invariant : Nat → HnswIndex → Prop)
    (first : index.entryPoint < 0 → invariant 0 (index.appendNode id vec level))
    (begins : ¬ index.entryPoint < 0 →
      invariant (min (level : Int) index.maxLevel + 1).toNat (index.appendNode id vec level))
    (step : ∀ layer selected before after,
      Rewired (index.appendNode id vec level) before →
      ConnectStep index.nodes.length layer selected before after →
      invariant (layer + 1) before → invariant layer after) :
    ∃ connected, index.insertNode host id vec level =
        .ok (connected.crowned index.nodes.length level) ∧
      Rewired (index.appendNode id vec level) connected ∧ connected.EdgesOnLayer ∧
      invariant 0 connected := by
  obtain ⟨connected, _, result, _, rewired, edges, kept⟩ := insertFound_spec host traversable id vec
    level (fun layer _ now => invariant layer now) first begins
    (fun layer selected _ _ before after rewired connect _ _ held =>
      step layer selected before after rewired connect held)
  exact ⟨connected, result, rewired, edges, kept⟩

theorem rewired_lists {before after : HnswIndex} (rewired : Rewired before after)
    (lists : ∀ node ∈ before.nodes, node.neighbors.length = node.topLayer + 1) :
    ∀ node ∈ after.nodes, node.neighbors.length = node.topLayer + 1 := by
  intro node member
  obtain ⟨position, found⟩ := List.getElem?_of_mem member
  obtain ⟨old, earlier, same⟩ := rewired.node_before found
  have length := lists old (List.mem_of_getElem? earlier)
  simp only [frame, Prod.mk.injEq] at same
  rw [same.2.2.1, same.2.2.2.2]
  exact length

theorem appendNode_lists (traversable : index.Traversable) (id : RecordId) (vec : List F32)
    (level : Nat) : ∀ node ∈ (index.appendNode id vec level).nodes,
      node.neighbors.length = node.topLayer + 1 := by
  intro node member
  rcases List.mem_append.mp member with old | new
  · exact traversable.lists node old
  · rw [List.mem_singleton.mp new]
    exact List.length_replicate

theorem crowned_linked (index : HnswIndex) (nodeId level layer node : Nat) :
    (index.crowned nodeId level).linked layer node = index.linked layer node := by
  simp only [linked, crowned_nodes]

theorem crowned_onLayer (index : HnswIndex) (nodeId level layer node : Nat) :
    (index.crowned nodeId level).OnLayer layer node ↔ index.OnLayer layer node := by
  simp only [OnLayer, crowned_nodes]

theorem insertNode_traversable (traversable : index.Traversable) (id : RecordId) (vec : List F32)
    (level : Nat) (absent : index.idToInternal.find? id = none) {connected : HnswIndex}
    (rewired : Rewired (index.appendNode id vec level) connected)
    (edges : connected.EdgesOnLayer) :
    (connected.crowned index.nodes.length level).Traversable := by
  have lists := rewired_lists rewired (appendNode_lists traversable id vec level)
  have newNode := appendNode_get index id vec level index.nodes.length
  rw [if_pos rfl] at newNode
  obtain ⟨held, found, same⟩ := rewired.node_after newNode
  simp only [frame, Prod.mk.injEq] at same
  have directory : connected.idToInternal = index.idToInternal.emplace id index.nodes.length := by
    rw [rewired.rest]
    rfl
  have length : connected.nodes.length = index.nodes.length + 1 := by
    rw [rewired.length]
    simp [appendNode]
  have entryPoint : connected.entryPoint = index.entryPoint := by
    rw [rewired.rest]
    rfl
  have maxLevel : connected.maxLevel = index.maxLevel := by
    rw [rewired.rest]
    rfl
  have explores : connected.efConstruction = index.efConstruction := by
    rw [rewired.rest]
    rfl
  constructor
  · rw [crowned_nodes]
    exact lists
  · intro layer node next member
    rw [crowned_linked] at member
    exact (crowned_onLayer _ _ _ _ _).mpr (edges layer node next member)
  · right
    rw [crowned_nodes, crowned]
    by_cases takes : connected.entryPoint < 0 ∨ (level : Int) > connected.maxLevel
    · rw [if_pos takes]
      exact ⟨index.nodes.length, held, rfl, found, by simp [same.2.2.1]⟩
    · rw [if_neg takes]
      rcases traversable.entry with negative | ⟨entry, old, isEntry, there, atMost⟩
      · exact absurd (Or.inl (by rw [entryPoint]; exact negative)) takes
      · have inside := (List.getElem?_eq_some_iff.mp there).1
        have appended := appendNode_get index id vec level entry
        rw [if_neg (show entry ≠ index.nodes.length by omega), there] at appended
        obtain ⟨kept, here, sameOld⟩ := rewired.node_after appended
        simp only [frame, Prod.mk.injEq] at sameOld
        exact ⟨entry, kept, by rw [entryPoint, isEntry], here, by
          rw [maxLevel, sameOld.2.2.1]
          exact atMost⟩
  · intro other node known
    rw [crowned_nodes, length]
    have unchanged : (connected.crowned index.nodes.length level).idToInternal =
        connected.idToInternal := by
      unfold crowned
      split <;> rfl
    rw [unchanged, directory, OrderedMap.emplace_of_absent _ _ _ absent,
      OrderedMap.find_insert] at known
    split at known
    · rw [Option.some.injEq] at known
      omega
    · have old := traversable.directory other node known
      omega
  · have unchanged : (connected.crowned index.nodes.length level).efConstruction =
        connected.efConstruction := by
      unfold crowned
      split <;> rfl
    rw [unchanged, explores]
    exact traversable.explores

theorem linked_set {node : Nat} {held new : HnswNode} (found : index.nodes[node]? = some held)
    (lists : new.neighbors = held.neighbors) (layer n : Nat) :
    linked { index with nodes := index.nodes.set node new } layer n = index.linked layer n := by
  have inside := (List.getElem?_eq_some_iff.mp found).1
  simp only [linked, List.getElem?_set]
  by_cases here : node = n
  · subst here
    simp only [if_true, if_pos inside, found, lists]
  · rw [if_neg here]

theorem onLayer_set {node : Nat} {held new : HnswNode} (found : index.nodes[node]? = some held)
    (lists : new.neighbors = held.neighbors) (layer n : Nat) :
    OnLayer { index with nodes := index.nodes.set node new } layer n ↔ index.OnLayer layer n := by
  have inside := (List.getElem?_eq_some_iff.mp found).1
  simp only [OnLayer, List.getElem?_set]
  by_cases here : node = n
  · subst here
    simp only [if_true, if_pos inside, found, Option.some.injEq, exists_eq_left', lists]
  · rw [if_neg here]

theorem set_traversable (traversable : index.Traversable) {node : Nat} {held : HnswNode}
    (new : HnswNode) (found : index.nodes[node]? = some held) (lists : new.neighbors = held.neighbors)
    (top : new.topLayer = held.topLayer) (count : Nat) :
    Traversable { index with nodes := index.nodes.set node new, liveCount := count } := by
  constructor
  · intro other member
    rcases List.mem_or_eq_of_mem_set member with old | same
    · exact traversable.lists other old
    · rw [same, lists, top]
      exact traversable.lists held (List.mem_of_getElem? found)
  · intro layer n next member
    have old : next ∈ index.linked layer n := by
      rw [← linked_set found lists layer n]
      exact member
    exact (onLayer_set found lists layer next).mpr (traversable.edges layer n next old)
  · rcases traversable.entry with negative | ⟨entry, kept, isEntry, there, atMost⟩
    · left
      exact negative
    · right
      have inside := (List.getElem?_eq_some_iff.mp there).1
      by_cases here : node = entry
      · subst here
        have agree : held = kept := by
          rw [found] at there
          exact Option.some.inj there
        exact ⟨node, new, isEntry, by simp [inside], by rw [top, agree]; exact atMost⟩
      · exact ⟨entry, kept, isEntry, by rw [List.getElem?_set, if_neg here]; exact there, atMost⟩
  · intro id other known
    simp only [List.length_set]
    exact traversable.directory id other known
  · exact traversable.explores

theorem revive_traversable (traversable : index.Traversable) {node : Nat} {held : HnswNode}
    (found : index.nodes[node]? = some held) (vec : List F32) :
    (index.revive node held vec).Traversable :=
  set_traversable traversable { held with vector := vec, deleted := false } found rfl rfl _

theorem tombstone_traversable (traversable : index.Traversable) {node : Nat} {held : HnswNode}
    (found : index.nodes[node]? = some held) : (index.tombstone node held).Traversable :=
  set_traversable traversable { held with deleted := true } found rfl rfl _

theorem add_spec (traversable : index.Traversable) (id : RecordId) (vec : List F32)
    (invariant : Nat → HnswIndex → Prop)
    (first : ∀ level, index.entryPoint < 0 → invariant 0 (index.appendNode id vec level))
    (begins : ∀ level : Nat, ¬ index.entryPoint < 0 →
      invariant (min (level : Int) index.maxLevel + 1).toNat (index.appendNode id vec level))
    (step : ∀ level layer selected before after,
      Rewired (index.appendNode id vec level) before →
      ConnectStep index.nodes.length layer selected before after →
      invariant (layer + 1) before → invariant layer after) :
    ∃ status after, index.add host id vec = .ok (status, after) ∧
      ((∃ error, rejectAdd index.dimensionality id vec = some error ∧ status = .error error ∧
          after = index) ∨
        rejectAdd index.dimensionality id vec = none ∧ status = .ok () ∧
          ((∃ node held, index.idToInternal.find? id = some node ∧
              index.nodes[node]? = some held ∧ after = index.revive node held vec) ∨
            index.idToInternal.find? id = none ∧ ∃ level connected, level < 2 ^ 31 ∧
              Rewired (index.appendNode id vec level) connected ∧ connected.EdgesOnLayer ∧
              invariant 0 connected ∧ after = connected.crowned index.nodes.length level)) := by
  cases refused : rejectAdd index.dimensionality id vec with
  | some error =>
      have result : index.add host id vec = .ok (.error error, index) := by
        simp only [add, refused]
        rfl
      exact ⟨_, _, result, Or.inl ⟨error, rfl, rfl, rfl⟩⟩
  | none =>
      cases known : index.idToInternal.find? id with
      | some node =>
          obtain ⟨held, found⟩ := traversable.held_of known
          have result : index.add host id vec = .ok (.ok (), index.revive node held vec) := by
            simp only [add, refused, known, access_eq found]
            rfl
          exact ⟨_, _, result, Or.inr ⟨rfl, rfl, Or.inl ⟨node, held, rfl, found, rfl⟩⟩⟩
      | none =>
          obtain ⟨level, isLevel⟩ : ∃ level, level =
            host.randomTopLayer index.rngSeed index.maxNeighborsUpper index.drawn := ⟨_, rfl⟩
          have small : level < 2 ^ 31 := by
            rw [isLevel]
            exact host.randomTopLayer_lt _ _ _
          obtain ⟨connected, computed, rewired, edges, kept⟩ := insertNode_spec host traversable id
            vec level invariant (first level) (begins level) (step level)
          have result : index.add host id vec =
              .ok (.ok (), connected.crowned index.nodes.length level) := by
            simp only [add, refused, known]
            rw [← isLevel, computed]
            rfl
          exact ⟨_, _, result,
            Or.inr ⟨rfl, rfl, Or.inr ⟨rfl, level, connected, small, rewired, edges, kept, rfl⟩⟩⟩

theorem add_traversable (traversable : index.Traversable) (id : RecordId) (vec : List F32) :
    ∃ status after, index.add host id vec = .ok (status, after) ∧ after.Traversable := by
  obtain ⟨status, after, result, rejected | ⟨_, _, revived | ⟨absent, level, connected, _,
    rewired, edges, _, inserted⟩⟩⟩ := add_spec host traversable id vec (fun _ _ => True)
      (fun _ _ => trivial) (fun _ _ => trivial) (fun _ _ _ _ _ _ _ _ => trivial)
  · obtain ⟨_, _, _, same⟩ := rejected
    exact ⟨status, after, result, by rw [same]; exact traversable⟩
  · obtain ⟨node, held, _, found, same⟩ := revived
    exact ⟨status, after, result, by rw [same]; exact revive_traversable traversable found vec⟩
  · exact ⟨status, after, result, by
      rw [inserted]
      exact insertNode_traversable traversable id vec level absent rewired edges⟩

theorem remove_spec (traversable : index.Traversable) (id : RecordId) :
    ∃ status after, index.remove id = .ok (status, after) ∧
      (index.idToInternal.find? id = none ∧ status = .error (noRecord id) ∧ after = index ∨
        ∃ node held, index.idToInternal.find? id = some node ∧ index.nodes[node]? = some held ∧
          (held.deleted = true ∧ status = .error (noLiveRecord id) ∧ after = index ∨
            held.deleted = false ∧ status = .ok () ∧ after = index.tombstone node held)) := by
  cases known : index.idToInternal.find? id with
  | none =>
      have result : index.remove id = .ok (.error (noRecord id), index) := by
        simp only [remove, known]
        rfl
      exact ⟨_, _, result, Or.inl ⟨rfl, rfl, rfl⟩⟩
  | some node =>
      obtain ⟨held, found⟩ := traversable.held_of known
      cases gone : held.deleted with
      | true =>
          have result : index.remove id = .ok (.error (noLiveRecord id), index) := by
            simp only [remove, known, access_eq found, bind, Except.bind, gone, if_true]
            rfl
          exact ⟨_, _, result, Or.inr ⟨node, held, rfl, found, Or.inl ⟨gone, rfl, rfl⟩⟩⟩
      | false =>
          have result : index.remove id = .ok (.ok (), index.tombstone node held) := by
            simp only [remove, known, access_eq found, bind, Except.bind, gone, Bool.false_eq_true,
              if_false]
            rfl
          exact ⟨_, _, result, Or.inr ⟨node, held, rfl, found, Or.inr ⟨gone, rfl, rfl⟩⟩⟩

def settings (index : HnswIndex) : UInt32 × DistanceMetric × UInt32 × UInt32 × UInt32 × UInt64 :=
  (index.dimensionality, index.metric, index.maxNeighborsUpper, index.maxNeighborsLayer0,
    index.efConstruction, index.rngSeed)

theorem add_settings (traversable : index.Traversable) {id : RecordId} {vec : List F32}
    {status : Status} {after : HnswIndex} (added : index.add host id vec = .ok (status, after)) :
    after.settings = index.settings := by
  obtain ⟨_, next, result, cases_⟩ := add_spec host traversable id vec
    (fun _ _ => True) (fun _ _ => trivial) (fun _ _ => trivial) (fun _ _ _ _ _ _ _ _ => trivial)
  rw [added] at result
  cases result
  rcases cases_ with rejected | ⟨_, _, revived | inserted⟩
  · obtain ⟨_, _, _, same⟩ := rejected
    rw [same]
  · obtain ⟨_, _, _, _, same⟩ := revived
    rw [same]
    rfl
  · obtain ⟨_, level, connected, _, rewired, _, _, same⟩ := inserted
    have crowning : (connected.crowned index.nodes.length level).settings = connected.settings := by
      unfold crowned
      split <;> rfl
    calc after.settings = connected.settings := by rw [same, crowning]
      _ = (index.appendNode id vec level).settings := by rw [rewired.rest]; rfl
      _ = index.settings := rfl

theorem remove_settings (traversable : index.Traversable) {id : RecordId} {status : Status}
    {after : HnswIndex} (removed : index.remove id = .ok (status, after)) :
    after.settings = index.settings ∧ after.nodes.length = index.nodes.length := by
  obtain ⟨_, next, result, cases_⟩ := remove_spec traversable id
  rw [removed] at result
  cases result
  rcases cases_ with ⟨_, _, same⟩ | ⟨node, held, _, _, ⟨_, _, same⟩ | ⟨_, _, same⟩⟩
  · rw [same]
    exact ⟨rfl, rfl⟩
  · rw [same]
    exact ⟨rfl, rfl⟩
  · rw [same]
    exact ⟨rfl, List.length_set⟩

theorem remove_traversable (traversable : index.Traversable) (id : RecordId) :
    ∃ status after, index.remove id = .ok (status, after) ∧ after.Traversable := by
  obtain ⟨status, after, result, ⟨_, _, same⟩ | ⟨node, held, _, found, ⟨_, _, same⟩ |
    ⟨_, _, same⟩⟩⟩ := remove_spec traversable id
  · exact ⟨status, after, result, by rw [same]; exact traversable⟩
  · exact ⟨status, after, result, by rw [same]; exact traversable⟩
  · exact ⟨status, after, result, by rw [same]; exact tombstone_traversable traversable found⟩

section Search

variable (q : List F32) (k : UInt32) (params : QueryParams)

theorem one_le_breadth : 1 ≤ breadth k params := by
  unfold breadth
  split
  · exact Nat.le_max_left _ _
  · next large =>
      rw [UInt32.lt_iff_toNat_lt] at large
      simp only [UInt32.toNat_one] at large
      have left := Nat.le_max_left params.efSearch.toNat k.toNat
      omega

def liveOf (index : HnswIndex) (found : List (D × Nat)) : List (Candidate D) :=
  found.filterMap (fun item =>
    match index.nodes[item.2]? with
    | some node => if node.deleted then none else some ⟨node.id, item.1⟩
    | none => none)

omit [FloatOrder D] in
theorem liveCandidates_eq (found : List (D × Nat))
    (valid : ∀ item ∈ found, item.2 < index.nodes.length) :
    index.liveCandidates found = .ok (index.liveOf found) := by
  induction found with
  | nil => rfl
  | cons item rest ih =>
      have there := List.getElem?_eq_getElem (valid item List.mem_cons_self)
      have later := ih (fun next member => valid next (List.mem_cons_of_mem _ member))
      rw [liveCandidates, access_eq there]
      simp only [bind, Except.bind, later, liveOf, List.filterMap_cons, there]
      split <;> simp_all [pure, Except.pure, liveOf]

theorem search_spec {property : Nat → Prop}
    (shape : ¬ (index.entryPoint < 0 ∨ k = 0 ∨ index.liveCount = 0)) {current : Nat}
    (descended : index.descendLayers host q 0 index.maxLevel.toNat index.entryPoint.toNat =
      .ok current)
    (closed : index.Closed 0 property) (there : property current) :
    ∃ final, index.search host q k params =
        .ok ((sortBy candidateLt (index.liveOf final.result.reverse)).take k.toNat) ∧
      Structural (index.score host q) (breadth k params) property final ∧
      explore (index.score host q) (index.linked 0) (breadth k params) (index.nodes.length + 2)
        (BestFirst.start (index.score host q) current) = some final := by
  obtain ⟨final, searched, structural, explored⟩ := searchLayer_spec host q closed there
    (one_le_breadth k params)
  have valid : ∀ item ∈ final.result.reverse, item.2 < index.nodes.length := by
    intro item member
    have reached := structural.reached _
      (structural.resultItems item (List.mem_reverse.mp member)).2
    exact (closed item.2 reached).1.valid
  have result : index.search host q k params =
      .ok ((sortBy candidateLt (index.liveOf final.result.reverse)).take k.toNat) := by
    rw [search, if_neg shape, descended]
    simp only [bind, Except.bind, searched]
    rw [liveCandidates_eq _ valid]
    rfl
  exact ⟨final, result, structural, explored⟩

theorem Traversable.descends (traversable : index.Traversable) (started : ¬ index.entryPoint < 0) :
    ∃ current, index.descendLayers host q 0 index.maxLevel.toNat index.entryPoint.toNat =
      .ok current ∧ index.OnLayer 0 current := by
  rcases traversable.entry with negative | ⟨entry, held, isEntry, found, atMost⟩
  · exact absurd negative started
  · have there : index.OnLayer (0 + index.maxLevel.toNat) index.entryPoint.toNat := by
      rw [isEntry, Int.toNat_natCast]
      exact traversable.onLayer_of found (by omega)
    exact descendLayers_spec host q traversable.edges.closed
      (fun layer lower node held below => held.below below) 0 _ _ there

theorem search_ok (traversable : index.Traversable) :
    ∃ candidates, index.search host q k params = .ok candidates := by
  by_cases nothing : index.entryPoint < 0 ∨ k = 0 ∨ index.liveCount = 0
  · have result : index.search host q k params = .ok [] := by
      rw [search, if_pos nothing]
      rfl
    exact ⟨[], result⟩
  · obtain ⟨current, descended, there⟩ := traversable.descends host q (fun negative =>
      nothing (Or.inl negative))
    obtain ⟨final, result, _⟩ := search_spec host q k params nothing descended
      (traversable.edges.closed 0) there
    exact ⟨_, result⟩

end Search

end VectorVault.HnswIndex
