import VectorVault.HnswTraversal

/-! What linking a node to its selected neighbours does to the graph.

Linking rewrites adjacency lists and nothing else. One step appends the edge,
appends the reciprocal edge, and prunes the neighbour's list when it overflows;
`LinkStep` says so once, and the invariants of a whole insertion come from it. -/

namespace VectorVault.HnswIndex

open FloatOrder DiverseSelection

def frame (node : HnswNode) : RecordId × List F32 × Nat × Bool × Nat :=
  (node.id, node.vector, node.topLayer, node.deleted, node.neighbors.length)

structure Rewired (before after : HnswIndex) : Prop where
  rest : after = { before with nodes := after.nodes }
  frames : after.nodes.map frame = before.nodes.map frame

namespace Rewired

variable {first second third : HnswIndex}

theorem refl (index : HnswIndex) : Rewired index index := ⟨rfl, rfl⟩

theorem trans (early : Rewired first second) (late : Rewired second third) :
    Rewired first third := by
  have rest : third = { first with nodes := third.nodes } := by
    rw [late.rest, early.rest]
  exact ⟨rest, late.frames.trans early.frames⟩

theorem length (rewired : Rewired first second) : second.nodes.length = first.nodes.length := by
  have lengths := congrArg List.length rewired.frames
  rw [List.length_map, List.length_map] at lengths
  exact lengths

theorem symm_nodes (rewired : Rewired first second) (node : Nat) :
    (second.nodes[node]?).map frame = (first.nodes[node]?).map frame := by
  rw [← List.getElem?_map, ← List.getElem?_map, rewired.frames]

theorem node_before (rewired : Rewired first second) {node : Nat} {held : HnswNode}
    (found : second.nodes[node]? = some held) :
    ∃ old, first.nodes[node]? = some old ∧ frame held = frame old := by
  have same := rewired.symm_nodes node
  rw [found] at same
  cases earlier : first.nodes[node]? with
  | none =>
      rw [earlier] at same
      cases same
  | some old =>
      rw [earlier] at same
      exact ⟨old, rfl, Option.some.inj same⟩

theorem node_after (rewired : Rewired first second) {node : Nat} {old : HnswNode}
    (found : first.nodes[node]? = some old) :
    ∃ held, second.nodes[node]? = some held ∧ frame held = frame old := by
  have same := rewired.symm_nodes node
  rw [found] at same
  cases later : second.nodes[node]? with
  | none =>
      rw [later] at same
      cases same
  | some held =>
      rw [later] at same
      exact ⟨held, rfl, Option.some.inj same⟩

theorem frame_length {held old : HnswNode} (same : frame held = frame old) :
    held.neighbors.length = old.neighbors.length :=
  congrArg (fun parts => parts.2.2.2.2) same

theorem frame_id {held old : HnswNode} (same : frame held = frame old) : held.id = old.id :=
  congrArg Prod.fst same

theorem onLayer_iff (rewired : Rewired first second) (layer node : Nat) :
    second.OnLayer layer node ↔ first.OnLayer layer node := by
  constructor
  · intro there
    obtain ⟨held, found, long⟩ := there
    obtain ⟨old, earlier, same⟩ := rewired.node_before found
    exact ⟨old, earlier, by rw [← frame_length same]; exact long⟩
  · intro there
    obtain ⟨old, found, long⟩ := there
    obtain ⟨held, later, same⟩ := rewired.node_after found
    exact ⟨held, later, by rw [frame_length same]; exact long⟩

theorem limit (rewired : Rewired first second) (layer : Nat) :
    second.maxNeighborsForLayer layer = first.maxNeighborsForLayer layer := by
  rw [rewired.rest]
  rfl

end Rewired

variable {index : HnswIndex} {layer nodeId other : Nat}

theorem setAdjacency_rewired (index : HnswIndex) (node layer : Nat) (list : List Nat) :
    Rewired index (index.setAdjacency node layer list) := by
  have frames : (index.setAdjacency node layer list).nodes.map frame = index.nodes.map frame := by
    apply List.ext_getElem?
    intro position
    simp only [setAdjacency, List.getElem?_map, List.getElem?_modify]
    by_cases here : node = position
    · simp only [here, if_true]
      cases index.nodes[position]? with
      | none => rfl
      | some held => simp [frame]
    · simp [here]
  exact ⟨rfl, frames⟩

theorem linked_setAdjacency {node : Nat} (there : index.OnLayer layer node) (list : List Nat)
    (l n : Nat) :
    (index.setAdjacency node layer list).linked l n =
      if l = layer ∧ n = node then list else index.linked l n := by
  obtain ⟨held, found, long⟩ := there
  simp only [linked, setAdjacency, List.getElem?_modify]
  by_cases here : node = n
  · subst here
    simp only [found, if_true, and_true]
    by_cases same : layer = l
    · subst same
      simp [long]
    · simp [same, Ne.symm same]
  · simp [here, Ne.symm here]

/-- One neighbour linked: `pruned` is the list the neighbour ends up with. -/
structure LinkStep (nodeId layer other : Nat) (before after : HnswIndex) (pruned : List Nat) :
    Prop where
  rewired : Rewired before after
  subperm : pruned.Subperm (before.linked layer other ++ [nodeId])
  bound : pruned.length ≤ before.maxNeighborsForLayer layer
  roomy : (before.linked layer other).length < before.maxNeighborsForLayer layer →
    pruned = before.linked layer other ++ [nodeId]
  some : 1 ≤ before.maxNeighborsForLayer layer → pruned ≠ []
  own : after.linked layer nodeId = before.linked layer nodeId ++ [other]
  reciprocal : after.linked layer other = pruned
  elsewhere : ∀ l n, ¬ (l = layer ∧ (n = nodeId ∨ n = other)) →
    after.linked l n = before.linked l n

theorem LinkStep.edgesOnLayer {before after : HnswIndex} {pruned : List Nat}
    (step : LinkStep nodeId layer other before after pruned) (edges : before.EdgesOnLayer)
    (own : before.OnLayer layer nodeId) (there : before.OnLayer layer other) :
    after.EdgesOnLayer := by
  intro l n next member
  rw [step.rewired.onLayer_iff]
  by_cases atNode : l = layer ∧ n = nodeId
  · rw [atNode.1, atNode.2, step.own] at member
    rw [atNode.1]
    rcases List.mem_append.mp member with old | new
    · exact edges layer nodeId next old
    · rw [List.mem_singleton.mp new]
      exact there
  · by_cases atOther : l = layer ∧ n = other
    · rw [atOther.1, atOther.2, step.reciprocal] at member
      rw [atOther.1]
      rcases List.mem_append.mp (step.subperm.subset member) with old | new
      · exact edges layer other next old
      · rw [List.mem_singleton.mp new]
        exact own
    · rw [step.elsewhere l n (by tauto)] at member
      exact edges l n next member

section Link

variable {D : Type} [FloatOrder D] (host : Host D)

theorem fitList_spec (owner limit : Nat) (list : List Nat) (valid : owner < index.nodes.length)
    (known : ∀ next ∈ list, next < index.nodes.length) :
    ∃ fitted, index.fitList host owner limit list = .ok fitted ∧ fitted.Subperm list ∧
      fitted.length ≤ limit ∧ (list.length ≤ limit → fitted = list) ∧
      (1 ≤ limit → list ≠ [] → fitted ≠ []) := by
  by_cases overflows : list.length > limit
  · have measured : list.mapM (fun nb => do
        let distance ← index.nodeDistance host owner nb
        return (distance, nb)) = .ok (list.map (fun nb => (index.apart host owner nb, nb))) := by
      apply mapM_eq
      intro next member
      rw [nodeDistance_eq host valid (known next member)]
      rfl
    have numbers : (list.map (fun nb => (index.apart host owner nb, nb))).map Prod.snd = list := by
      simp [Function.comp_def]
    have picked := selectNeighborsHeuristic_eq host limit
      (list.map (fun nb => (index.apart host owner nb, nb)))
      (fun cand member => by
        obtain ⟨next, inside, rfl⟩ := List.mem_map.mp member
        exact known next inside)
    have subperm := pick_subperm (index.apart host) limit
      (list.map (fun nb => (index.apart host owner nb, nb)))
    rw [numbers] at subperm
    have result : index.fitList host owner limit list = .ok (pick (index.apart host) limit
        (sortBy keyedLt (list.map (fun nb => (index.apart host owner nb, nb)))) []) := by
      simp only [fitList, if_pos overflows]
      rw [measured]
      exact picked
    have some_ : list.map (fun nb => (index.apart host owner nb, nb)) ≠ [] := by
      intro empty
      rw [List.map_eq_nil_iff.mp empty] at overflows
      exact Nat.not_lt_zero _ overflows
    exact ⟨_, result, subperm, pick_length _ _ _ _ (Nat.zero_le _), fun fits => by omega,
      fun room _ => pick_ne_nil (index.apart host) room some_⟩
  · have result : index.fitList host owner limit list = .ok list := by
      rw [fitList, if_neg overflows]
      rfl
    exact ⟨list, result, List.Subperm.refl _, by omega, fun _ => rfl, fun _ some_ => some_⟩

theorem link_spec (own : index.OnLayer layer nodeId) (there : index.OnLayer layer other)
    (distinct : other ≠ nodeId) (edges : index.EdgesOnLayer) :
    ∃ after pruned, link host nodeId layer index other = .ok after ∧
      LinkStep nodeId layer other index after pruned := by
  obtain ⟨pushed, isPushed⟩ : ∃ pushed, pushed =
      index.setAdjacency nodeId layer (index.linked layer nodeId ++ [other]) := ⟨_, rfl⟩
  have rewired : Rewired index pushed := by
    rw [isPushed]
    exact setAdjacency_rewired index nodeId layer _
  have pushedLists : ∀ l n, pushed.linked l n =
      if l = layer ∧ n = nodeId then index.linked layer nodeId ++ [other]
      else index.linked l n := by
    intro l n
    rw [isPushed]
    exact linked_setAdjacency own _ l n
  have otherList : pushed.linked layer other = index.linked layer other := by
    rw [pushedLists]
    exact if_neg (fun both => distinct both.2)
  have thereToo := (rewired.onLayer_iff layer other).mpr there
  have grownValid : ∀ next ∈ index.linked layer other ++ [nodeId], next < pushed.nodes.length := by
    intro next member
    rw [rewired.length]
    rcases List.mem_append.mp member with old | new
    · exact (edges layer other next old).valid
    · rw [List.mem_singleton.mp new]
      exact own.valid
  obtain ⟨fitted, computed, subperm, bound, roomy, some_⟩ := fitList_spec host other
    (index.maxNeighborsForLayer layer) _ thereToo.valid grownValid
  have result : link host nodeId layer index other = .ok (pushed.setAdjacency other layer fitted) := by
    rw [link, if_neg distinct, adjacency_eq own]
    simp only [bind, Except.bind, ← isPushed]
    rw [adjacency_eq thereToo, otherList]
    simp only [computed]
    rfl
  have final := linked_setAdjacency thereToo fitted
  have ownList : (pushed.setAdjacency other layer fitted).linked layer nodeId =
      index.linked layer nodeId ++ [other] := by
    rw [final, if_neg (fun both => distinct both.2.symm), pushedLists, if_pos ⟨rfl, rfl⟩]
  have elsewhere : ∀ l n, ¬ (l = layer ∧ (n = nodeId ∨ n = other)) →
      (pushed.setAdjacency other layer fitted).linked l n = index.linked l n := by
    intro l n outside
    rw [final, if_neg (fun both => outside ⟨both.1, Or.inr both.2⟩), pushedLists,
      if_neg (fun both => outside ⟨both.1, Or.inl both.2⟩)]
  have whole : (index.linked layer other).length < index.maxNeighborsForLayer layer →
      fitted = index.linked layer other ++ [nodeId] := by
    intro room
    apply roomy
    rw [List.length_append, List.length_singleton]
    omega
  exact ⟨_, fitted, result, rewired.trans (setAdjacency_rewired _ other layer fitted), subperm,
    bound, whole, fun room => some_ room (by simp), ownList, (final layer other).trans (if_pos ⟨rfl, rfl⟩), elsewhere⟩

/-- Induction rule for linking a node to all it selected: the loop runs through,
rewires, keeps edges on their layer, and keeps what every step keeps. -/
theorem foldlM_link (invariant : List Nat → HnswIndex → Prop) (start : HnswIndex)
    (own : start.OnLayer layer nodeId)
    (step : ∀ done other before after pruned, other ∉ done → other ≠ nodeId →
      Rewired start before → before.EdgesOnLayer → LinkStep nodeId layer other before after pruned →
      invariant done before → invariant (done ++ [other]) after)
    (selected done : List Nat) (index : HnswIndex)
    (known : ∀ other ∈ selected, other ≠ nodeId ∧ start.OnLayer layer other)
    (nodup : (done ++ selected).Nodup) (rewired : Rewired start index) (edges : index.EdgesOnLayer) (holds : invariant done index) :
    ∃ after, selected.foldlM (link host nodeId layer) index = .ok after ∧ Rewired start after ∧
      after.EdgesOnLayer ∧ invariant (done ++ selected) after := by
  induction selected generalizing done index with
  | nil =>
      rw [List.append_nil]
      exact ⟨index, rfl, rewired, edges, holds⟩
  | cons other rest ih =>
      obtain ⟨distinct, there⟩ := known other List.mem_cons_self
      have ownNow := (rewired.onLayer_iff layer nodeId).mpr own
      have thereNow := (rewired.onLayer_iff layer other).mpr there
      obtain ⟨next, pruned, computed, linkStep⟩ := link_spec host ownNow thereNow distinct edges
      have fresh : other ∉ done := by
        intro member
        exact (List.nodup_append.mp nodup).2.2 other member other List.mem_cons_self rfl
      have split : (done ++ [other]) ++ rest = done ++ other :: rest := by simp
      obtain ⟨after, later, rewiredOn, edgesOn, kept⟩ := ih (done ++ [other]) next
        (fun item member => known item (List.mem_cons_of_mem _ member)) (by rw [split]; exact nodup)
        (rewired.trans linkStep.rewired) (linkStep.edgesOnLayer edges ownNow thereNow)
        (step done other index next pruned fresh distinct rewired edges linkStep holds)
      have result : (other :: rest).foldlM (link host nodeId layer) index = .ok after := by
        rw [List.foldlM_cons, computed]
        exact later
      rw [split] at kept
      exact ⟨after, result, rewiredOn, edgesOn, kept⟩

/-- A node linked on one layer, on which it had no edge before. -/
structure ConnectStep (nodeId layer : Nat) (selected : List Nat) (before after : HnswIndex) :
    Prop where
  rewired : Rewired before after
  edges : after.EdgesOnLayer
  nodup : selected.Nodup
  bound : selected.length ≤ before.maxNeighborsForLayer layer
  some : 1 ≤ before.maxNeighborsForLayer layer → selected ≠ []
  others : ∀ n ∈ selected, n ≠ nodeId ∧ before.OnLayer layer n
  fresh : ∀ n, nodeId ∉ before.linked layer n
  own : after.linked layer nodeId = selected
  subperm : ∀ n ∈ selected,
    (after.linked layer n).Subperm (before.linked layer n ++ [nodeId])
  degree : ∀ n ∈ selected, (after.linked layer n).length ≤ before.maxNeighborsForLayer layer
  roomy : ∀ n ∈ selected,
    (before.linked layer n).length < before.maxNeighborsForLayer layer →
      after.linked layer n = before.linked layer n ++ [nodeId]
  kept : 1 ≤ before.maxNeighborsForLayer layer → ∀ n ∈ selected, after.linked layer n ≠ []
  elsewhere : ∀ l n, ¬ (l = layer ∧ (n = nodeId ∨ n ∈ selected)) →
    after.linked l n = before.linked l n

structure PartlyConnected (nodeId layer : Nat) (done : List Nat) (before after : HnswIndex) :
    Prop where
  own : after.linked layer nodeId = done
  reciprocal : ∀ n ∈ done,
    (after.linked layer n).Subperm (before.linked layer n ++ [nodeId]) ∧
      (after.linked layer n).length ≤ before.maxNeighborsForLayer layer ∧
      ((before.linked layer n).length < before.maxNeighborsForLayer layer →
        after.linked layer n = before.linked layer n ++ [nodeId]) ∧
      (1 ≤ before.maxNeighborsForLayer layer → after.linked layer n ≠ [])
  elsewhere : ∀ l n, ¬ (l = layer ∧ (n = nodeId ∨ n ∈ done)) →
    after.linked l n = before.linked l n

theorem PartlyConnected.link {done : List Nat} {start before after : HnswIndex}
    {pruned : List Nat} (partly : PartlyConnected nodeId layer done start before)
    (fresh : other ∉ done) (distinct : other ≠ nodeId) (rewired : Rewired start before)
    (apart : nodeId ∉ done) (step : LinkStep nodeId layer other before after pruned) :
    PartlyConnected nodeId layer (done ++ [other]) start after := by
  have same : before.linked layer other = start.linked layer other :=
    partly.elsewhere layer other (by simp [distinct, fresh])
  have limit := rewired.limit layer
  have reciprocal : ∀ n ∈ done ++ [other],
      (after.linked layer n).Subperm (start.linked layer n ++ [nodeId]) ∧
        (after.linked layer n).length ≤ start.maxNeighborsForLayer layer ∧
        ((start.linked layer n).length < start.maxNeighborsForLayer layer →
          after.linked layer n = start.linked layer n ++ [nodeId]) ∧
        (1 ≤ start.maxNeighborsForLayer layer → after.linked layer n ≠ []) := by
    intro n member
    rcases List.mem_append.mp member with old | new
    · have notOther : n ≠ other := fun equal => fresh (equal ▸ old)
      have notNode : n ≠ nodeId := fun equal => apart (equal ▸ old)
      rw [step.elsewhere layer n (by simp [notOther, notNode])]
      exact partly.reciprocal n old
    · rw [List.mem_singleton.mp new, step.reciprocal]
      have subperm := step.subperm
      have bound := step.bound
      have roomy := step.roomy
      have some_ := step.some
      rw [same] at subperm roomy
      rw [limit] at bound roomy some_
      exact ⟨subperm, bound, roomy, some_⟩
  have elsewhere : ∀ l n, ¬ (l = layer ∧ (n = nodeId ∨ n ∈ done ++ [other])) →
      after.linked l n = start.linked l n := by
    intro l n outside
    simp only [List.mem_append, List.mem_singleton] at outside
    rw [step.elsewhere l n (by tauto), partly.elsewhere l n (by tauto)]
  exact ⟨by rw [step.own, partly.own], reciprocal, elsewhere⟩

theorem connectNode_spec {candidates : List (D × Nat)} (own : index.OnLayer layer nodeId)
    (edges : index.EdgesOnLayer) (alone : index.linked layer nodeId = [])
    (fresh : ∀ n, nodeId ∉ index.linked layer n)
    (known : ∀ cand ∈ candidates, cand.2 ≠ nodeId ∧ index.OnLayer layer cand.2)
    (nodup : (candidates.map Prod.snd).Nodup) (found : candidates ≠ []) :
    ∃ selected after, index.connectNode host nodeId candidates layer = .ok after ∧
      ConnectStep nodeId layer selected index after ∧
      (1 ≤ index.maxNeighborsForLayer layer → ∀ nearest rest,
        sortBy keyedLt candidates = nearest :: rest → nearest.2 ∈ selected) := by
  obtain ⟨selected, isSelected⟩ : ∃ selected, selected = pick (index.apart host)
    (index.maxNeighborsForLayer layer) (sortBy keyedLt candidates) [] := ⟨_, rfl⟩
  have computed := selectNeighborsHeuristic_eq host (index.maxNeighborsForLayer layer) candidates
    (fun cand member => (known cand member).2.valid)
  have subperm := pick_subperm (index.apart host) (index.maxNeighborsForLayer layer) candidates
  have bound := pick_length (index.apart host) (index.maxNeighborsForLayer layer)
    (sortBy keyedLt candidates) [] (Nat.zero_le _)
  rw [← isSelected] at computed subperm bound
  have others : ∀ n ∈ selected, n ≠ nodeId ∧ index.OnLayer layer n := by
    intro n member
    obtain ⟨cand, inside, same⟩ := List.mem_map.mp (subperm.subset member)
    rw [← same]
    exact known cand inside
  have distinct : selected.Nodup := by
    obtain ⟨list, permuted, sublist⟩ := subperm
    exact permuted.nodup_iff.mp (sublist.nodup nodup)
  have some_ : 1 ≤ index.maxNeighborsForLayer layer → selected ≠ [] := by
    intro room
    rw [isSelected]
    exact pick_ne_nil (index.apart host) room found
  have head : 1 ≤ index.maxNeighborsForLayer layer → ∀ nearest rest,
      sortBy keyedLt candidates = nearest :: rest → nearest.2 ∈ selected := by
    intro room nearest rest sorted
    rw [isSelected, sorted]
    exact head_mem_pick (index.apart host) (index.maxNeighborsForLayer layer) nearest rest room
  have startPartly : PartlyConnected nodeId layer [] index index :=
    ⟨alone, fun n member => absurd member List.not_mem_nil, fun _ _ _ => rfl⟩
  obtain ⟨after, linkedAll, rewired, edgesOn, partly⟩ := foldlM_link host
    (fun done now => nodeId ∉ done ∧ PartlyConnected nodeId layer done index now) index own
    (fun done other before after pruned unseen apart rewired _ step held => by
      have notNode : nodeId ∉ done ++ [other] := by
        intro member
        rcases List.mem_append.mp member with old | new
        · exact held.1 old
        · exact apart (List.mem_singleton.mp new).symm
      exact ⟨notNode, held.2.link unseen apart rewired held.1 step⟩)
    selected [] index others distinct (Rewired.refl index) edges ⟨by simp, startPartly⟩
  have result : index.connectNode host nodeId candidates layer = .ok after := by
    rw [connectNode, computed]
    simp only [bind, Except.bind]
    rw [adjacency_eq own]
    exact linkedAll
  rw [List.nil_append] at partly
  have reciprocal := partly.2.reciprocal
  exact ⟨selected, after, result, ⟨rewired, edgesOn, distinct, bound, some_, others, fresh,
    partly.2.own, fun n member => (reciprocal n member).1,
    fun n member => (reciprocal n member).2.1, fun n member => (reciprocal n member).2.2.1,
    fun room n member => (reciprocal n member).2.2.2 room, partly.2.elsewhere⟩, head⟩

end Link

end VectorVault.HnswIndex
