import VectorVault.HnswInsertion

/-! The invariant of an index the program built itself.

Beyond what traversals need: no list names its owner or a node twice or exceeds
its layer's limit, identifiers and node numbers correspond, the live counter is
the number of live nodes, and the entry point is a tallest node. -/

namespace VectorVault.HnswIndex

structure Tidy (index : HnswIndex) : Prop where
  noSelf : ∀ layer node, node ∉ index.linked layer node
  nodup : ∀ layer node, (index.linked layer node).Nodup
  degree : ∀ layer node, (index.linked layer node).length ≤ index.maxNeighborsForLayer layer

def Live (node : HnswNode) : Bool := !node.deleted

structure WellFormed (index : HnswIndex) : Prop where
  traversable : index.Traversable
  tidy : index.Tidy
  directory : ∀ id node, index.idToInternal.find? id = some node ↔
    ∃ held, index.nodes[node]? = some held ∧ held.id = id
  liveCount : index.liveCount = index.nodes.countP Live
  top : index.nodes ≠ [] → ∃ (entry : Nat) (held : HnswNode), index.entryPoint = entry ∧
    index.nodes[entry]? = some held ∧ (held.topLayer : Int) = index.maxLevel ∧
    ∀ other ∈ index.nodes, other.topLayer ≤ held.topLayer
  tops : ∀ node ∈ index.nodes, node.topLayer < 2 ^ 31
  upper : 2 ≤ index.maxNeighborsUpper.toNat
  layer0 : index.maxNeighborsLayer0 = index.maxNeighborsUpper * 2

variable {index : HnswIndex}

theorem Tidy.connect {nodeId layer : Nat} {selected : List Nat} {before after : HnswIndex}
    (tidy : before.Tidy) (step : ConnectStep nodeId layer selected before after) :
    after.Tidy := by
  have cases_ : ∀ l n, after.linked l n = before.linked l n ∨
      l = layer ∧ n = nodeId ∧ after.linked l n = selected ∨
      l = layer ∧ n ∈ selected := by
    intro l n
    by_cases touched : l = layer ∧ (n = nodeId ∨ n ∈ selected)
    · obtain ⟨same, isNode | isOther⟩ := touched
      · right; left
        exact ⟨same, isNode, by rw [same, isNode, step.own]⟩
      · right; right
        exact ⟨same, isOther⟩
    · left
      exact step.elsewhere l n touched
  constructor
  · intro l n member
    rcases cases_ l n with same | ⟨_, isNode, own⟩ | ⟨same, isOther⟩
    · rw [same] at member
      exact tidy.noSelf l n member
    · rw [own, isNode] at member
      exact (step.others nodeId member).1 rfl
    · rw [same] at member
      rcases List.mem_append.mp ((step.subperm n isOther).subset member) with old | new
      · exact tidy.noSelf layer n old
      · exact (step.others n isOther).1 (List.mem_singleton.mp new)
  · intro l n
    rcases cases_ l n with same | ⟨_, _, own⟩ | ⟨same, isOther⟩
    · rw [same]
      exact tidy.nodup l n
    · rw [own]
      exact step.nodup
    · rw [same]
      have grown : (before.linked layer n ++ [nodeId]).Nodup := by
        rw [List.nodup_append]
        exact ⟨tidy.nodup layer n, List.nodup_singleton nodeId, fun a old b new => by
          rw [List.mem_singleton.mp new]
          exact fun equal => step.fresh n (equal ▸ old)⟩
      obtain ⟨list, permuted, sublist⟩ := step.subperm n isOther
      exact permuted.nodup_iff.mp (sublist.nodup grown)
  · intro l n
    rw [step.rewired.limit]
    rcases cases_ l n with same | ⟨same, _, own⟩ | ⟨same, isOther⟩
    · rw [same]
      exact tidy.degree l n
    · rw [own, same]
      exact step.bound
    · rw [same]
      exact step.degree n isOther

theorem Tidy.of_linked {before after : HnswIndex} (tidy : before.Tidy)
    (lists : ∀ layer node, after.linked layer node = before.linked layer node)
    (limit : ∀ layer, after.maxNeighborsForLayer layer = before.maxNeighborsForLayer layer) :
    after.Tidy := by
  constructor
  · intro layer node
    rw [lists]
    exact tidy.noSelf layer node
  · intro layer node
    rw [lists]
    exact tidy.nodup layer node
  · intro layer node
    rw [lists, limit]
    exact tidy.degree layer node

theorem Tidy.append (tidy : index.Tidy) (id : RecordId) (vec : List F32) (level : Nat) :
    (index.appendNode id vec level).Tidy :=
  tidy.of_linked (linked_appendNode index id vec level) (fun _ => rfl)

theorem new_wellFormed (dimensionality : UInt32) (metric : DistanceMetric)
    (params : IndexParams) : (new dimensionality metric params).WellFormed := by
  have none : ∀ layer node, (new dimensionality metric params).linked layer node = [] := by
    intro layer node
    simp [linked, new]
  have tidy : (new dimensionality metric params).Tidy := by
    constructor
    · intro layer node
      simp [none]
    · intro layer node
      simp [none]
    · intro layer node
      simp [none]
  have upper : 2 ≤ (new dimensionality metric params).maxNeighborsUpper.toNat := by
    simp only [new]
    split
    · decide
    · next large =>
        rw [UInt32.lt_iff_toNat_lt] at large
        have two : (2 : UInt32).toNat = 2 := rfl
        omega
  constructor
  · exact new_traversable dimensionality metric params
  · exact tidy
  · intro id node
    simp [new]
  · simp [new]
  · intro nonempty
    exact absurd rfl nonempty
  · intro node member
    cases member
  · exact upper
  · rfl

section Insertion

variable {id : RecordId} {vec : List F32} {level : Nat} {connected : HnswIndex}

theorem rewired_countP {before after : HnswIndex} (rewired : Rewired before after) :
    after.nodes.countP Live = before.nodes.countP Live := by
  have byFrame : ∀ nodes : List HnswNode, nodes.countP Live =
      (nodes.map frame).countP (fun parts => !parts.2.2.2.1) := by
    intro nodes
    rw [List.countP_map]
    rfl
  rw [byFrame, byFrame, rewired.frames]

theorem insertNode_directory (directory : ∀ id node, index.idToInternal.find? id = some node ↔
      ∃ held, index.nodes[node]? = some held ∧ held.id = id)
    (absent : index.idToInternal.find? id = none)
    (rewired : Rewired (index.appendNode id vec level) connected) (other : RecordId) (node : Nat) :
    connected.idToInternal.find? other = some node ↔
      ∃ held, connected.nodes[node]? = some held ∧ held.id = other := by
  have table : connected.idToInternal = index.idToInternal.emplace id index.nodes.length := by
    rw [rewired.rest]
    rfl
  have moved : (∃ held, connected.nodes[node]? = some held ∧ held.id = other) ↔
      ∃ held, (index.appendNode id vec level).nodes[node]? = some held ∧ held.id = other := by
    constructor
    · intro there
      obtain ⟨held, found, named⟩ := there
      obtain ⟨old, earlier, same⟩ := rewired.node_before found
      exact ⟨old, earlier, by rw [← Rewired.frame_id same]; exact named⟩
    · intro there
      obtain ⟨old, found, named⟩ := there
      obtain ⟨held, later, same⟩ := rewired.node_after found
      exact ⟨held, later, by rw [Rewired.frame_id same]; exact named⟩
  rw [moved, table, OrderedMap.emplace_of_absent _ _ _ absent, OrderedMap.find_insert,
    appendNode_get]
  by_cases last : node = index.nodes.length
  · simp only [last, if_true, Option.some.injEq, exists_eq_left']
    by_cases named : other = id
    · simp [named]
    · have noOld : ¬ index.idToInternal.find? other = some index.nodes.length := by
        intro old
        obtain ⟨held, found, _⟩ := (directory other _).mp old
        rw [List.getElem?_eq_none (le_refl _)] at found
        cases found
      simp [named, noOld, Ne.symm named]
  · rw [if_neg last]
    by_cases named : other = id
    · subst named
      have noOld : ¬ ∃ held, index.nodes[node]? = some held ∧ held.id = other := by
        intro there
        rw [← directory other node, absent] at there
        cases there
      simp only [if_true, Option.some.injEq, noOld, iff_false]
      exact fun same => last same.symm
    · rw [if_neg named]
      exact directory other node

theorem appendNode_length (index : HnswIndex) (id : RecordId) (vec : List F32) (level : Nat) :
    (index.appendNode id vec level).nodes.length = index.nodes.length + 1 := by
  simp [appendNode]

theorem rewired_tops (rewired : Rewired (index.appendNode id vec level) connected) :
    ∀ other ∈ connected.nodes, other.topLayer = level ∨
      ∃ old ∈ index.nodes, other.topLayer = old.topLayer := by
  intro other member
  obtain ⟨position, found⟩ := List.getElem?_of_mem member
  obtain ⟨earlier, there, same⟩ := rewired.node_before found
  simp only [frame, Prod.mk.injEq] at same
  rw [appendNode_get] at there
  split at there
  · left
    rw [same.2.2.1, ← Option.some.inj there]
  · right
    exact ⟨earlier, List.mem_of_getElem? there, same.2.2.1⟩

theorem rewired_kept (rewired : Rewired (index.appendNode id vec level) connected) {position : Nat}
    {before : HnswNode} (there : (index.appendNode id vec level).nodes[position]? = some before) :
    ∃ held, connected.nodes[position]? = some held ∧ held.topLayer = before.topLayer := by
  obtain ⟨held, found, same⟩ := rewired.node_after there
  simp only [frame, Prod.mk.injEq] at same
  exact ⟨held, found, same.2.2.1⟩

theorem insertNode_top (wellFormed : index.WellFormed)
    (rewired : Rewired (index.appendNode id vec level) connected) :
    ∃ (entry : Nat) (held : HnswNode),
      (connected.crowned index.nodes.length level).entryPoint = entry ∧
      connected.nodes[entry]? = some held ∧
      (held.topLayer : Int) = (connected.crowned index.nodes.length level).maxLevel ∧
      ∀ other ∈ connected.nodes, other.topLayer ≤ held.topLayer := by
  have tops := rewired_tops rewired
  have entryPoint : connected.entryPoint = index.entryPoint := by
    rw [rewired.rest]
    rfl
  have maxLevel : connected.maxLevel = index.maxLevel := by
    rw [rewired.rest]
    rfl
  have newNode := appendNode_get index id vec level index.nodes.length
  rw [if_pos rfl] at newNode
  rcases rewired_kept rewired newNode with ⟨held, found, isTop⟩
  have isLevel : held.topLayer = level := isTop
  rw [crowned]
  by_cases empty : index.nodes = []
  · have started : connected.entryPoint < 0 := by
      rw [entryPoint]
      rcases wellFormed.traversable.entry with negative | ⟨entry, old, _, there, _⟩
      · exact negative
      · rw [empty] at there
        cases there
    rw [if_pos (Or.inl started)]
    have largest : ∀ other ∈ connected.nodes, other.topLayer ≤ held.topLayer := by
      intro other member
      rcases tops other member with new | ⟨old, inside, _⟩
      · rw [new, isLevel]
      · rw [empty] at inside
        cases inside
    exact ⟨index.nodes.length, held, rfl, found, by rw [isLevel], largest⟩
  · obtain ⟨entry, old, isEntry, there, isMax, atMost⟩ := wellFormed.top empty
    by_cases takes : connected.entryPoint < 0 ∨ (level : Int) > connected.maxLevel
    · rw [if_pos takes]
      have taller : old.topLayer < level := by
        rw [entryPoint, maxLevel, isEntry] at takes
        omega
      have largest : ∀ other ∈ connected.nodes, other.topLayer ≤ held.topLayer := by
        intro other member
        rw [isLevel]
        rcases tops other member with new | ⟨earlier, inside, top⟩
        · rw [new]
        · have low := atMost earlier inside
          omega
      exact ⟨index.nodes.length, held, rfl, found, by rw [isLevel], largest⟩
    · rw [if_neg takes]
      have shorter : level ≤ old.topLayer := by
        rw [entryPoint, maxLevel, isEntry] at takes
        omega
      have inside := (List.getElem?_eq_some_iff.mp there).1
      have appended := appendNode_get index id vec level entry
      rw [if_neg (show entry ≠ index.nodes.length by omega), there] at appended
      obtain ⟨kept, here, isOld⟩ := rewired_kept rewired appended
      have largest : ∀ other ∈ connected.nodes, other.topLayer ≤ kept.topLayer := by
        intro other member
        rw [isOld]
        rcases tops other member with new | ⟨earlier, inIndex, top⟩
        · rw [new]
          exact shorter
        · rw [top]
          exact atMost earlier inIndex
      exact ⟨entry, kept, by rw [entryPoint, isEntry], here, by rw [maxLevel, isOld, isMax],
        largest⟩

theorem insertNode_wellFormed (wellFormed : index.WellFormed)
    (absent : index.idToInternal.find? id = none) (small : level < 2 ^ 31)
    (rewired : Rewired (index.appendNode id vec level) connected)
    (edges : connected.EdgesOnLayer) (tidy : connected.Tidy) :
    (connected.crowned index.nodes.length level).WellFormed := by
  have traversable := insertNode_traversable wellFormed.traversable id vec level absent rewired edges
  have table : (connected.crowned index.nodes.length level).idToInternal =
      connected.idToInternal := by
    unfold crowned
    split <;> rfl
  have counter : (connected.crowned index.nodes.length level).liveCount = index.liveCount + 1 := by
    have same : connected.liveCount = index.liveCount + 1 := by
      rw [rewired.rest]
      rfl
    unfold crowned
    split <;> exact same
  have limits : (connected.crowned index.nodes.length level).maxNeighborsUpper =
      index.maxNeighborsUpper ∧ (connected.crowned index.nodes.length level).maxNeighborsLayer0 =
      index.maxNeighborsLayer0 := by
    rw [crowned, rewired.rest]
    split <;> exact ⟨rfl, rfl⟩
  have limit : ∀ layer, (connected.crowned index.nodes.length level).maxNeighborsForLayer layer =
      connected.maxNeighborsForLayer layer := by
    intro layer
    unfold crowned
    split <;> rfl
  constructor
  · exact traversable
  · exact tidy.of_linked (fun layer node => crowned_linked _ _ _ layer node) limit
  · intro other node
    rw [table, crowned_nodes]
    exact insertNode_directory wellFormed.directory absent rewired other node
  · rw [counter, crowned_nodes, rewired_countP rewired, wellFormed.liveCount]
    simp [appendNode, Live]
  · intro _
    rw [crowned_nodes]
    exact insertNode_top wellFormed rewired
  · rw [crowned_nodes]
    intro other member
    rcases rewired_tops rewired other member with new | ⟨old, inside, top⟩
    · rw [new]
      exact small
    · rw [top]
      exact wellFormed.tops old inside
  · rw [limits.1]
    exact wellFormed.upper
  · rw [limits.1, limits.2]
    exact wellFormed.layer0

end Insertion

theorem set_wellFormed (wellFormed : index.WellFormed) {node : Nat} {held : HnswNode}
    (new : HnswNode) (found : index.nodes[node]? = some held)
    (lists : new.neighbors = held.neighbors) (top : new.topLayer = held.topLayer)
    (named : new.id = held.id) (count : Nat)
    (counted : count = (index.nodes.set node new).countP Live) :
    WellFormed { index with nodes := index.nodes.set node new, liveCount := count } := by
  have inside := (List.getElem?_eq_some_iff.mp found).1
  have there : index.nodes[node] = held := (List.getElem?_eq_some_iff.mp found).2
  have tidy : Tidy { index with nodes := index.nodes.set node new, liveCount := count } :=
    wellFormed.tidy.of_linked (linked_set found lists) (fun _ => rfl)
  constructor
  · exact set_traversable wellFormed.traversable new found lists top count
  · exact tidy
  · intro id n
    rw [wellFormed.directory id n]
    simp only [List.getElem?_set]
    by_cases here : node = n
    · subst here
      simp only [if_true, if_pos inside, found, Option.some.injEq, exists_eq_left', named]
    · rw [if_neg here]
  · exact counted
  · intro _
    have nonempty : index.nodes ≠ [] := by
      intro empty
      rw [empty] at found
      cases found
    obtain ⟨entry, old, isEntry, oldFound, isMax, atMost⟩ := wellFormed.top nonempty
    have largest : ∀ other ∈ index.nodes.set node new, other.topLayer ≤ old.topLayer := by
      intro other member
      rcases List.mem_or_eq_of_mem_set member with old | same
      · exact atMost other old
      · rw [same, top]
        exact atMost held (List.mem_of_getElem? found)
    by_cases here : node = entry
    · subst here
      have agree : held = old := by
        rw [found] at oldFound
        exact Option.some.inj oldFound
      exact ⟨node, new, isEntry, by simp [inside], by rw [top, agree]; exact isMax, by
        rw [top, agree]
        exact largest⟩
    · exact ⟨entry, old, isEntry, by rw [List.getElem?_set, if_neg here]; exact oldFound, isMax,
        largest⟩
  · intro other member
    rcases List.mem_or_eq_of_mem_set member with old | same
    · exact wellFormed.tops other old
    · rw [same, top]
      exact wellFormed.tops held (List.mem_of_getElem? found)
  · exact wellFormed.upper
  · exact wellFormed.layer0

theorem countP_set_live {nodes : List HnswNode} {node : Nat} {held : HnswNode} (new : HnswNode)
    (found : nodes[node]? = some held) :
    (nodes.set node new).countP Live + (if Live held then 1 else 0) =
      nodes.countP Live + (if Live new then 1 else 0) := by
  obtain ⟨inside, there⟩ := List.getElem?_eq_some_iff.mp found
  have positive : Live held = true → 0 < nodes.countP Live := by
    intro alive
    exact List.countP_pos_iff.mpr ⟨held, List.mem_of_getElem? found, alive⟩
  rw [List.countP_set inside, there]
  by_cases alive : Live held = true
  · have atLeast := positive alive
    simp only [alive, if_true]
    omega
  · simp only [alive, Bool.false_eq_true, if_false]
    omega

theorem revive_wellFormed (wellFormed : index.WellFormed) {node : Nat} {held : HnswNode}
    (found : index.nodes[node]? = some held) (vec : List F32) :
    (index.revive node held vec).WellFormed := by
  apply set_wellFormed wellFormed { held with vector := vec, deleted := false } found rfl rfl rfl
  have counts := countP_set_live { held with vector := vec, deleted := false } found
  rw [wellFormed.liveCount]
  cases gone : held.deleted with
  | true =>
      simp only [Live, gone, Bool.not_true, Bool.false_eq_true, if_false, Bool.not_false, if_true]
        at counts ⊢
      omega
  | false =>
      simp only [Live, gone, Bool.not_false, if_true, Bool.false_eq_true, if_false] at counts ⊢
      omega

theorem tombstone_wellFormed (wellFormed : index.WellFormed) {node : Nat} {held : HnswNode}
    (found : index.nodes[node]? = some held) (alive : held.deleted = false) :
    (index.tombstone node held).WellFormed := by
  apply set_wellFormed wellFormed { held with deleted := true } found rfl rfl rfl
  have counts := countP_set_live { held with deleted := true } found
  rw [wellFormed.liveCount]
  simp only [Live, alive, Bool.not_false, if_true, Bool.not_true, Bool.false_eq_true, if_false]
    at counts ⊢
  omega

section Operations

variable {D : Type} [FloatOrder D] (host : Host D)

theorem add_wellFormed (wellFormed : index.WellFormed) (id : RecordId) (vec : List F32) :
    ∃ status after, index.add host id vec = .ok (status, after) ∧ after.WellFormed := by
  obtain ⟨status, after, result, rejected | ⟨_, _, revived | ⟨absent, level, connected, small,
    rewired, edges, tidy, inserted⟩⟩⟩ := add_spec host wellFormed.traversable id vec
      (fun _ now => now.Tidy) (fun _ _ => wellFormed.tidy.append id vec _)
      (fun _ _ => wellFormed.tidy.append id vec _)
      (fun _ layer selected before after _ step held => held.connect step)
  · obtain ⟨_, _, _, same⟩ := rejected
    exact ⟨status, after, result, by rw [same]; exact wellFormed⟩
  · obtain ⟨node, held, _, found, same⟩ := revived
    exact ⟨status, after, result, by rw [same]; exact revive_wellFormed wellFormed found vec⟩
  · exact ⟨status, after, result, by
      rw [inserted]
      exact insertNode_wellFormed wellFormed absent small rewired edges tidy⟩

theorem remove_wellFormed (wellFormed : index.WellFormed) (id : RecordId) :
    ∃ status after, index.remove id = .ok (status, after) ∧ after.WellFormed := by
  obtain ⟨status, after, result, ⟨_, _, same⟩ | ⟨node, held, _, found, ⟨_, _, same⟩ |
    ⟨alive, _, same⟩⟩⟩ := remove_spec wellFormed.traversable id
  · exact ⟨status, after, result, by rw [same]; exact wellFormed⟩
  · exact ⟨status, after, result, by rw [same]; exact wellFormed⟩
  · exact ⟨status, after, result, by rw [same]; exact tombstone_wellFormed wellFormed found alive⟩

end Operations

end VectorVault.HnswIndex
