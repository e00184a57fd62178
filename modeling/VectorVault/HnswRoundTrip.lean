import VectorVault.HnswCanonical

/-! Writing an index and reading it back. -/

namespace VectorVault

open Snapshot FloatOrder

namespace HnswIndex

open HnswRegion

section Load

variable (dimensionality : UInt32) (metric : DistanceMetric)
  (vectorFor : RecordId → Option (List F32)) (region : HnswRegion)

theorem foldl_loadNode_nodes (nodes : List HnswNode) (index : HnswIndex) :
    (nodes.foldl loadNode index).nodes = index.nodes ++ nodes := by
  induction nodes generalizing index with
  | nil => simp
  | cons head tail ih =>
      rw [List.foldl_cons, ih]
      simp [loadNode]

theorem foldl_loadNode_rest (nodes : List HnswNode) (index : HnswIndex) :
    nodes.foldl loadNode index = { index with
      nodes := (nodes.foldl loadNode index).nodes
      idToInternal := (nodes.foldl loadNode index).idToInternal } := by
  induction nodes generalizing index with
  | nil => rfl
  | cons head tail ih =>
      rw [List.foldl_cons, ih]
      rfl

theorem foldl_loadNode_find (nodes : List HnswNode) (index : HnswIndex)
    (distinct : (nodes.map HnswNode.id).Nodup)
    (fresh : ∀ node ∈ nodes, index.idToInternal.find? node.id = none) (id : RecordId)
    (number : Nat) :
    (nodes.foldl loadNode index).idToInternal.find? id = some number ↔
      index.idToInternal.find? id = some number ∨
        ∃ i node, nodes[i]? = some node ∧ node.id = id ∧ number = index.nodes.length + i := by
  induction nodes generalizing index with
  | nil => simp
  | cons head tail ih =>
      have absent := fresh head List.mem_cons_self
      have notHead := (List.nodup_cons.mp distinct).1
      have freshTail : ∀ node ∈ tail, (loadNode index head).idToInternal.find? node.id = none := by
        intro node member
        have apart : node.id ≠ head.id := by
          intro same
          exact notHead (List.mem_map.mpr ⟨node, member, same⟩)
        rw [loadNode_find index head node.id absent, if_neg apart]
        exact fresh node (List.mem_cons_of_mem _ member)
      have length : (loadNode index head).nodes.length = index.nodes.length + 1 := by
        simp [loadNode]
      rw [List.foldl_cons, ih _ (List.nodup_cons.mp distinct).2 freshTail, length,
        loadNode_find index head id absent]
      constructor
      · intro held
        rcases held with now | ⟨i, node, found, named, isNumber⟩
        · by_cases same : id = head.id
          · rw [if_pos same, Option.some.injEq] at now
            exact Or.inr ⟨0, head, rfl, same.symm, by omega⟩
          · rw [if_neg same] at now
            exact Or.inl now
        · exact Or.inr ⟨i + 1, node, by simpa using found, named, by omega⟩
      · intro held
        rcases held with old | ⟨i, node, found, named, isNumber⟩
        · have apart : id ≠ head.id := by
            intro same
            rw [same, absent] at old
            cases old
          rw [if_neg apart]
          exact Or.inl old
        · cases i with
          | zero =>
              simp only [List.getElem?_cons_zero, Option.some.injEq] at found
              rw [found, if_pos named.symm]
              exact Or.inl (by rw [isNumber]; rfl)
          | succ i => exact Or.inr ⟨i, node, by simpa using found, named, by omega⟩

theorem load_nodes : (region.load dimensionality metric vectorFor).nodes =
    region.nodesOf vectorFor := by
  simp only [load, foldl_loadNode_nodes]
  rfl

theorem load_directory (distinct : (region.nodes.map StoredNode.id).Nodup) (id : RecordId)
    (number : Nat) :
    (region.load dimensionality metric vectorFor).idToInternal.find? id = some number ↔
      ∃ node, (region.nodesOf vectorFor)[number]? = some node ∧ node.id = id := by
  rw [← nodesOf_ids vectorFor] at distinct
  have table := foldl_loadNode_find (region.nodesOf vectorFor)
    (HnswIndex.new dimensionality metric region.params) distinct (fun _ _ => rfl) id number
  have empty : (HnswIndex.new dimensionality metric region.params).idToInternal.find? id = none := rfl
  have zero : (HnswIndex.new dimensionality metric region.params).nodes.length = 0 := rfl
  rw [empty, zero] at table
  constructor
  · intro held
    rcases table.mp held with none | ⟨i, node, found, named, isNumber⟩
    · cases none
    · rw [Nat.zero_add] at isNumber
      exact ⟨node, by rw [isNumber]; exact found, named⟩
  · intro held
    obtain ⟨node, found, named⟩ := held
    exact table.mpr (Or.inr ⟨number, node, found, named, (Nat.zero_add number).symm⟩)

theorem load_fixed : (region.load dimensionality metric vectorFor).maxNeighborsUpper =
      (if region.m < 2 then 2 else region.m) ∧
    (region.load dimensionality metric vectorFor).maxNeighborsLayer0 =
      (if region.m < 2 then 2 else region.m) * 2 ∧
    (region.load dimensionality metric vectorFor).efConstruction =
      (if region.efConstruction < 1 then 1 else region.efConstruction) ∧
    (region.load dimensionality metric vectorFor).rngSeed = region.seed ∧
    (region.load dimensionality metric vectorFor).drawn = 0 ∧
    (region.load dimensionality metric vectorFor).dimensionality = dimensionality ∧
    (region.load dimensionality metric vectorFor).metric = metric := by
  rw [load, foldl_loadNode_rest]
  exact ⟨rfl, rfl, rfl, rfl, rfl, rfl, rfl⟩

theorem nodesOf_get {number : Nat} {node : HnswNode}
    (found : (region.nodesOf vectorFor)[number]? = some node) :
    ∃ stored, region.nodes[number]? = some stored ∧
      node = stored.load ((vectorFor stored.id).getD []) := by
  rw [nodesOf, List.getElem?_map] at found
  obtain ⟨stored, there, same⟩ := Option.map_eq_some_iff.mp found
  exact ⟨stored, there, same.symm⟩

theorem load_linked (layer number : Nat) :
    (region.load dimensionality metric vectorFor).linked layer number =
      match region.nodes[number]? with
      | some stored => (stored.layers.getD layer []).map UInt32.toNat
      | none => [] := by
  simp only [linked, load_nodes, nodesOf, List.getElem?_map]
  cases region.nodes[number]? with
  | none => rfl
  | some stored =>
      simp only [Option.map_some, StoredNode.load, List.getElem?_map, List.getD_eq_getElem?_getD]
      cases stored.layers[layer]? <;> rfl

end Load

section Reload

variable {index : HnswIndex} (writable : index.Writable)
  (small : index.nodes.length < 2 ^ 31)
  (dimensionality : UInt32) (metric : DistanceMetric)
  (vectorFor : RecordId → Option (List F32))

def reloaded (index : HnswIndex) (dimensionality : UInt32) (metric : DistanceMetric)
    (vectorFor : RecordId → Option (List F32)) : HnswIndex :=
  index.canonicalForm.load dimensionality metric vectorFor

theorem canonicalForm_get (index : HnswIndex) (c : Nat) :
    index.canonicalForm.nodes[c]? =
      (index.liveNodes[c]?).map (fun entry => index.storedNode entry.1) := by
  simp [canonicalForm]

theorem storedNode_list (index : HnswIndex) {node : HnswNode} {layer : Nat}
    (atMost : layer ≤ node.topLayer) : (index.storedNode node).layers[layer]? =
      some ((index.remapped node layer).map UInt32.ofNat) := by
  simp only [storedNode, List.getElem?_map]
  rw [List.getElem?_range (by omega)]
  rfl

include small in
theorem storedNode_layers (node : HnswNode) (layer : Nat) :
    ((index.storedNode node).layers.getD layer []).map UInt32.toNat =
      if layer ≤ node.topLayer then index.remapped node layer else [] := by
  have fewer := index.liveNodes_length_le
  simp only [storedNode, List.getD_eq_getElem?_getD, List.getElem?_map]
  by_cases atMost : layer ≤ node.topLayer
  · rw [if_pos atMost, List.getElem?_range (by omega)]
    simp only [Option.map_some, Option.getD_some, List.map_map]
    have same : ∀ c ∈ index.remapped node layer, (UInt32.toNat ∘ UInt32.ofNat) c = c := by
      intro c inside
      have less := remapped_lt inside
      exact UInt32.toNat_ofNat_of_lt' (show c < UInt32.size by simp only [UInt32.size]; omega)
    calc (index.remapped node layer).map (UInt32.toNat ∘ UInt32.ofNat)
        = (index.remapped node layer).map id := List.map_congr_left same
      _ = index.remapped node layer := List.map_id _
  · rw [if_neg atMost, List.getElem?_eq_none (by simp; omega)]
    rfl

include small in
theorem reloaded_linked (layer c : Nat) :
    (index.reloaded dimensionality metric vectorFor).linked layer c =
      match index.liveNodes[c]? with
      | some (node, _) => if layer ≤ node.topLayer then index.remapped node layer else []
      | none => [] := by
  rw [reloaded, load_linked, canonicalForm_get]
  cases held : index.liveNodes[c]? with
  | none => rfl
  | some entry =>
      obtain ⟨node, number⟩ := entry
      exact storedNode_layers small node layer

include writable in
theorem reloaded_get {c : Nat} {node : HnswNode} {number : Nat}
    (held : index.liveNodes[c]? = some (node, number)) :
    ∃ loaded, (index.reloaded dimensionality metric vectorFor).nodes[c]? = some loaded ∧
      loaded.id = node.id ∧ loaded.topLayer = node.topLayer ∧ loaded.deleted = false ∧
      loaded.vector = (vectorFor node.id).getD [] ∧
      loaded.neighbors.length = node.topLayer + 1 := by
  have top := storedNode_top writable (List.mem_of_getElem? held)
  have there : (index.reloaded dimensionality metric vectorFor).nodes[c]? =
      some ((index.storedNode node).load ((vectorFor node.id).getD [])) := by
    rw [reloaded, load_nodes, nodesOf, List.getElem?_map, canonicalForm_get, held]
    rfl
  exact ⟨_, there, rfl, top, rfl, rfl, by simp [StoredNode.load, storedNode]⟩

include writable in
theorem reloaded_before {c : Nat} {loaded : HnswNode}
    (found : (index.reloaded dimensionality metric vectorFor).nodes[c]? = some loaded) :
    ∃ node number, index.liveNodes[c]? = some (node, number) ∧ loaded.id = node.id ∧
      loaded.topLayer = node.topLayer ∧ loaded.deleted = false ∧
      loaded.neighbors.length = node.topLayer + 1 := by
  cases held : index.liveNodes[c]? with
  | none =>
      rw [reloaded, load_nodes, nodesOf, List.getElem?_map, canonicalForm_get, held] at found
      cases found
  | some entry =>
      obtain ⟨other, there, facts⟩ := reloaded_get writable dimensionality metric vectorFor
        (show index.liveNodes[c]? = some (entry.1, entry.2) from held)
      rw [found, Option.some.injEq] at there
      rw [← there] at facts
      exact ⟨entry.1, entry.2, rfl, facts.1, facts.2.1, facts.2.2.1, facts.2.2.2.2⟩

include writable in
theorem reloaded_params :
    (index.reloaded dimensionality metric vectorFor).maxNeighborsUpper = index.maxNeighborsUpper ∧
    (index.reloaded dimensionality metric vectorFor).maxNeighborsLayer0 =
      index.maxNeighborsUpper * 2 ∧
    (index.reloaded dimensionality metric vectorFor).efConstruction = index.efConstruction ∧
    (index.reloaded dimensionality metric vectorFor).rngSeed = index.rngSeed := by
  obtain ⟨upper, layer0, explores, seed, _⟩ :=
    load_fixed dimensionality metric vectorFor index.canonicalForm
  have atLeast := writable.upper
  have explored := writable.explores
  have large : ¬ index.canonicalForm.m < 2 := by
    rw [UInt32.lt_iff_toNat_lt]
    exact not_lt.mpr atLeast
  have positive : ¬ index.canonicalForm.efConstruction < 1 := by
    rw [UInt32.lt_iff_toNat_lt]
    exact not_lt.mpr explored
  rw [if_neg large] at upper layer0
  rw [if_neg positive] at explores
  exact ⟨upper, layer0, explores, seed⟩

include writable in
theorem reloaded_directory (id : RecordId) (c : Nat) :
    (index.reloaded dimensionality metric vectorFor).idToInternal.find? id = some c ↔
      ∃ held, (index.reloaded dimensionality metric vectorFor).nodes[c]? = some held ∧
        held.id = id := by
  have distinct := (canonicalForm_ascending writable).imp (fun less => less.ne)
  rw [reloaded, load_nodes]
  exact load_directory dimensionality metric vectorFor index.canonicalForm distinct id c

theorem reloaded_length (index : HnswIndex) :
    (index.reloaded dimensionality metric vectorFor).nodes.length = index.liveNodes.length := by
  rw [reloaded, load_nodes, nodesOf, List.length_map, canonicalForm_length]

include writable small in
theorem reloaded_entry (some_ : index.liveNodes ≠ []) :
    ∃ (c : Nat) (node : HnswNode) (number : Nat), index.liveNodes[c]? = some (node, number) ∧
      (index.reloaded dimensionality metric vectorFor).entryPoint = c ∧
      (index.reloaded dimensionality metric vectorFor).maxLevel = node.topLayer ∧
      (∀ entry ∈ index.liveNodes, entry.1.topLayer ≤ node.topLayer) ∧
      ∀ j entry, j < c → index.liveNodes[j]? = some entry → entry.1.topLayer < node.topLayer := by
  obtain ⟨c, node, number, held, isEntry, low, isMax, highest, first⟩ :=
    canonicalForm_entry index small some_
  have nodeFound := ((mem_liveNodes node number).mp (List.mem_of_getElem? held)).1
  have topSmall := writable.tops node (List.mem_of_getElem? nodeFound)
  have nonempty : index.canonicalForm.nodes ≠ [] := by
    intro none
    have length := canonicalForm_length index
    rw [none] at length
    exact some_ (List.length_eq_zero_iff.mp length.symm)
  have entryPoint : (index.reloaded dimensionality metric vectorFor).entryPoint = c := by
    rw [reloaded, load]
    simp only [if_neg nonempty]
    rw [isEntry, asInt_ofNat low]
  have notNone : asU32 node.topLayer ≠ 0xFFFFFFFF := by
    intro same
    have values := congrArg asInt same
    have minus : asInt 0xFFFFFFFF = -1 := by decide
    rw [asInt_asU32 (by omega) (by omega), minus] at values
    omega
  have maxLevel : (index.reloaded dimensionality metric vectorFor).maxLevel = node.topLayer := by
    rw [reloaded, load]
    simp only [isMax, if_neg notNone]
    exact asInt_asU32 (by omega) (by omega)
  exact ⟨c, node, number, held, entryPoint, maxLevel, highest, first⟩

include writable small in
theorem reloaded_top (some_ : index.liveNodes ≠ []) :
    ∃ (entry : Nat) (held : HnswNode),
      (index.reloaded dimensionality metric vectorFor).entryPoint = entry ∧
      (index.reloaded dimensionality metric vectorFor).nodes[entry]? = some held ∧
      (held.topLayer : Int) = (index.reloaded dimensionality metric vectorFor).maxLevel ∧
      ∀ other ∈ (index.reloaded dimensionality metric vectorFor).nodes,
        other.topLayer ≤ held.topLayer := by
  obtain ⟨c, node, number, held, entryPoint, maxLevel, highest, _⟩ :=
    reloaded_entry writable small dimensionality metric vectorFor some_
  obtain ⟨loaded, found, _, top, _⟩ :=
    reloaded_get writable dimensionality metric vectorFor held
  have largest : ∀ other ∈ (index.reloaded dimensionality metric vectorFor).nodes,
      other.topLayer ≤ loaded.topLayer := by
    intro other member
    obtain ⟨position, there⟩ := List.getElem?_of_mem member
    obtain ⟨old, oldNumber, oldHeld, _, oldTop, _⟩ :=
      reloaded_before writable dimensionality metric vectorFor there
    have atMost := highest (old, oldNumber) (List.mem_of_getElem? oldHeld)
    simp only at atMost
    omega
  exact ⟨c, loaded, entryPoint, found, by rw [maxLevel, top], largest⟩

end Reload

section WellFormed

variable {index : HnswIndex} (wellFormed : index.WellFormed)
  (small : index.nodes.length < 2 ^ 31)
  (dimensionality : UInt32) (metric : DistanceMetric)
  (vectorFor : RecordId → Option (List F32))

include wellFormed small

theorem reloaded_linked_cases {layer c next : Nat}
    (member : next ∈ (index.reloaded dimensionality metric vectorFor).linked layer c) :
    ∃ node number nextNode nextNumber, index.liveNodes[c]? = some (node, number) ∧
      layer ≤ node.topLayer ∧ nextNumber ∈ index.linked layer number ∧
      index.liveNodes[next]? = some (nextNode, nextNumber) := by
  rw [reloaded_linked small dimensionality metric vectorFor] at member
  cases held : index.liveNodes[c]? with
  | none =>
      rw [held] at member
      cases member
  | some entry =>
      obtain ⟨node, number⟩ := entry
      rw [held] at member
      by_cases atMost : layer ≤ node.topLayer
      · simp only [if_pos atMost] at member
        obtain ⟨nextNumber, edge, found⟩ :=
          ((remapped_live wellFormed (List.mem_of_getElem? held) atMost).2 next).mp member
        obtain ⟨nextNode, there, _⟩ := canonical_live found
        exact ⟨node, number, nextNode, nextNumber, rfl, atMost, edge, there⟩
      · simp only [if_neg atMost] at member
        cases member

theorem reloaded_tidy : (index.reloaded dimensionality metric vectorFor).Tidy := by
  obtain ⟨upper, layer0, _, _⟩ :=
    reloaded_params wellFormed.writable dimensionality metric vectorFor
  have limit : ∀ layer, (index.reloaded dimensionality metric vectorFor).maxNeighborsForLayer layer =
      index.maxNeighborsForLayer layer := by
    intro layer
    rw [maxNeighborsForLayer, maxNeighborsForLayer, upper, layer0, wellFormed.layer0]
  have lists : ∀ layer c,
      (index.reloaded dimensionality metric vectorFor).linked layer c = [] ∨
        ∃ node number, index.liveNodes[c]? = some (node, number) ∧ layer ≤ node.topLayer ∧
          (index.reloaded dimensionality metric vectorFor).linked layer c =
            index.remapped node layer := by
    intro layer c
    rw [reloaded_linked small dimensionality metric vectorFor]
    cases held : index.liveNodes[c]? with
    | none => exact Or.inl rfl
    | some entry =>
        obtain ⟨node, number⟩ := entry
        by_cases atMost : layer ≤ node.topLayer
        · simp only [if_pos atMost]
          exact Or.inr ⟨node, number, rfl, atMost, rfl⟩
        · simp only [if_neg atMost]
          exact Or.inl trivial
  constructor
  · intro layer c member
    obtain ⟨node, number, nextNode, nextNumber, held, _, edge, there⟩ :=
      reloaded_linked_cases wellFormed small dimensionality metric vectorFor member
    rw [held, Option.some.injEq, Prod.mk.injEq] at there
    rw [← there.2] at edge
    exact wellFormed.tidy.noSelf layer number edge
  · intro layer c
    rcases lists layer c with empty | ⟨node, number, held, atMost, same⟩
    · rw [empty]
      exact List.nodup_nil
    · rw [same]
      exact (index.remapped_ascending node layer).imp (fun less => less.ne)
  · intro layer c
    rw [limit]
    rcases lists layer c with empty | ⟨node, number, held, atMost, same⟩
    · rw [empty]
      exact Nat.zero_le _
    · rw [same]
      exact (remapped_live wellFormed (List.mem_of_getElem? held) atMost).1

theorem reloaded_edges : (index.reloaded dimensionality metric vectorFor).EdgesOnLayer := by
  intro layer c next member
  obtain ⟨_, number, nextNode, nextNumber, _, _, edge, there⟩ :=
    reloaded_linked_cases wellFormed small dimensionality metric vectorFor member
  obtain ⟨loaded, found, _, _, _, _, length⟩ :=
    reloaded_get wellFormed.writable dimensionality metric vectorFor there
  have old := wellFormed.traversable.edges layer number nextNumber edge
  obtain ⟨held, heldFound, atMost⟩ := (wellFormed.traversable.onLayer_iff layer nextNumber).mp old
  have same := ((mem_liveNodes nextNode nextNumber).mp (List.mem_of_getElem? there)).1
  rw [heldFound, Option.some.injEq] at same
  rw [same] at atMost
  exact ⟨loaded, found, by omega⟩

theorem reloaded_traversable : (index.reloaded dimensionality metric vectorFor).Traversable := by
  constructor
  · intro node member
    rcases List.getElem?_of_mem member with ⟨position, there⟩
    rcases reloaded_before wellFormed.writable dimensionality metric vectorFor there with
      ⟨old, _, _, _, oldTop, _, size⟩
    rw [oldTop]
    exact size
  · exact reloaded_edges wellFormed small dimensionality metric vectorFor
  · by_cases empty : index.liveNodes = []
    · left
      have noNodes : index.canonicalForm.nodes = [] := by
        apply List.length_eq_zero_iff.mp
        rw [canonicalForm_length, empty]
        rfl
      have entry : (index.reloaded dimensionality metric vectorFor).entryPoint = -1 := by
        rw [reloaded, load]
        simp only [if_pos noNodes]
      rw [entry]
      decide
    · right
      rcases reloaded_top wellFormed.writable small dimensionality metric vectorFor empty with
        ⟨entry, held, isEntry, found, isMax, _⟩
      exact ⟨entry, held, isEntry, found, by omega⟩
  · intro id node known
    rcases (reloaded_directory wellFormed.writable dimensionality metric vectorFor id node).mp known
      with ⟨held, found, _⟩
    exact (List.getElem?_eq_some_iff.mp found).1
  · rw [(reloaded_params wellFormed.writable dimensionality metric vectorFor).2.2.1]
    exact wellFormed.traversable.explores

theorem reloaded_wellFormed : (index.reloaded dimensionality metric vectorFor).WellFormed := by
  rcases reloaded_params wellFormed.writable dimensionality metric vectorFor with ⟨upper, layer0, _⟩
  have length := reloaded_length dimensionality metric vectorFor index
  have nonempty : (index.reloaded dimensionality metric vectorFor).nodes ≠ [] →
      index.liveNodes ≠ [] := by
    intro some_ none
    rw [none] at length
    exact some_ (List.length_eq_zero_iff.mp length)
  have alive : ∀ node ∈ (index.reloaded dimensionality metric vectorFor).nodes,
      Live node = true := by
    intro node member
    rcases List.getElem?_of_mem member with ⟨position, there⟩
    rcases reloaded_before wellFormed.writable dimensionality metric vectorFor there with
      ⟨_, _, _, _, _, kept, _⟩
    simp [Live, kept]
  constructor
  · exact reloaded_traversable wellFormed small dimensionality metric vectorFor
  · exact reloaded_tidy wellFormed small dimensionality metric vectorFor
  · exact reloaded_directory wellFormed.writable dimensionality metric vectorFor
  · have counted : (index.reloaded dimensionality metric vectorFor).liveCount =
        index.canonicalForm.nodes.length := rfl
    rw [counted, canonicalForm_length, List.countP_eq_length.mpr alive, length]
  · intro some_
    exact reloaded_top wellFormed.writable small dimensionality metric vectorFor (nonempty some_)
  · intro node member
    obtain ⟨position, there⟩ := List.getElem?_of_mem member
    obtain ⟨old, number, held, _, oldTop, _⟩ :=
      reloaded_before wellFormed.writable dimensionality metric vectorFor there
    have found := ((mem_liveNodes old number).mp (List.mem_of_getElem? held)).1
    rw [oldTop]
    exact wellFormed.tops old (List.mem_of_getElem? found)
  · rw [upper]
    exact wellFormed.upper
  · rw [upper, layer0]

end WellFormed

section FixedPoint

variable {index : HnswIndex} (writable : index.Writable)
  (small : index.nodes.length < 2 ^ 31)
  (dimensionality : UInt32) (metric : DistanceMetric)
  (vectorFor : RecordId → Option (List F32))

include writable

theorem liveNodes_reloaded :
    (index.reloaded dimensionality metric vectorFor).liveNodes =
      (index.reloaded dimensionality metric vectorFor).nodes.zipIdx := by
  have alive : ∀ entry ∈ (index.reloaded dimensionality metric vectorFor).nodes.zipIdx,
      (!entry.1.deleted) = true := by
    intro entry member
    have found := List.mem_zipIdx_iff_getElem?.mp member
    obtain ⟨_, _, _, _, _, kept, _⟩ :=
      reloaded_before writable dimensionality metric vectorFor found
    simp [kept]
  have ascending : ((index.reloaded dimensionality metric vectorFor).nodes.map HnswNode.id).Pairwise
      (· < ·) := by
    rw [reloaded, load_nodes, nodesOf_ids]
    exact canonicalForm_ascending writable
  have sorted : (index.reloaded dimensionality metric vectorFor).nodes.zipIdx.Pairwise
      (fun first second => decide (second.1.id < first.1.id) = false) := by
    rw [← List.zipIdx_map_fst 0 (index.reloaded dimensionality metric vectorFor).nodes, List.map_map,
      List.pairwise_map] at ascending
    apply ascending.imp
    intro first second less
    simp only [Function.comp_apply] at less
    simp [not_lt.mpr less.le]
  rw [liveNodes, List.filter_eq_self.mpr alive, sortBy]
  exact List.Pairwise.insertionSort_eq sorted

theorem canonical_reloaded {c : Nat}
    (inside : c < (index.reloaded dimensionality metric vectorFor).nodes.length) :
    (index.reloaded dimensionality metric vectorFor).canonical c = some c := by
  rw [canonical_eq_some, liveNodes_reloaded writable, List.zipIdx_map_snd,
    List.getElem?_range' inside]
  simp

theorem filterMap_canonical_reloaded {numbers : List Nat} (inside : ∀ c ∈ numbers,
    c < (index.reloaded dimensionality metric vectorFor).nodes.length) :
    numbers.filterMap (index.reloaded dimensionality metric vectorFor).canonical = numbers := by
  calc numbers.filterMap (index.reloaded dimensionality metric vectorFor).canonical
      = numbers.filterMap some := by
        apply List.filterMap_congr
        intro c there
        exact canonical_reloaded writable dimensionality metric vectorFor (inside c there)
    _ = numbers := List.filterMap_some

include small

theorem remapped_reloaded (node : HnswNode) {layer : Nat} (atMost : layer ≤ node.topLayer)
    (components : List F32) :
    (index.reloaded dimensionality metric vectorFor).remapped
      ((index.storedNode node).load components) layer = index.remapped node layer := by
  have list := index.storedNode_list atMost
  have loadedList : ((index.storedNode node).load components).neighbors.getD layer [] =
      index.remapped node layer := by
    have layers := storedNode_layers small node layer
    rw [if_pos atMost] at layers
    rw [← layers]
    simp only [StoredNode.load, List.getD_eq_getElem?_getD, List.getElem?_map, list]
    rfl
  have long : layer < ((index.storedNode node).load components).neighbors.length := by
    simp only [StoredNode.load, List.length_map]
    exact (List.getElem?_eq_some_iff.mp list).1
  have kept : (index.remapped node layer).filterMap
      (index.reloaded dimensionality metric vectorFor).canonical = index.remapped node layer := by
    apply filterMap_canonical_reloaded writable
    intro c there
    rw [reloaded_length]
    exact remapped_lt there
  have ascending := index.remapped_ascending node layer
  rw [HnswIndex.remapped, if_pos long, loadedList, kept]
  rw [List.Pairwise.insertionSort_eq (ascending.imp (fun less => less.le))]
  exact unique_of_ascending ascending

theorem storedNode_reloaded {stored : StoredNode} (member : stored ∈ index.canonicalForm.nodes)
    (components : List F32) :
    (index.reloaded dimensionality metric vectorFor).storedNode (stored.load components) =
      stored := by
  rcases mem_canonicalForm member with ⟨node, number, inside, same⟩
  have top := storedNode_top writable inside
  have length : stored.layers.length = stored.topLayer.toNat + 1 := by
    rw [same, top]
    simp [storedNode]
  have layers : (List.range (stored.topLayer.toNat + 1)).map (fun layer =>
      ((index.reloaded dimensionality metric vectorFor).remapped (stored.load components)
        layer).map UInt32.ofNat) = stored.layers := by
    apply List.ext_getElem?
    intro layer
    rw [List.getElem?_map]
    by_cases less : layer < stored.layers.length
    · have atMost : layer ≤ node.topLayer := by
        rw [length, same, top] at less
        omega
      rw [List.getElem?_range (by omega), Option.map_some, same, index.storedNode_list atMost,
        remapped_reloaded writable small dimensionality metric vectorFor node atMost]
    · rw [List.getElem?_eq_none (by simp; omega), List.getElem?_eq_none (by omega)]
      rfl
  have number : UInt32.ofNat stored.topLayer.toNat = stored.topLayer := UInt32.ofNat_toNat
  calc (index.reloaded dimensionality metric vectorFor).storedNode (stored.load components)
      = ⟨stored.id, UInt32.ofNat stored.topLayer.toNat,
          (List.range (stored.topLayer.toNat + 1)).map (fun layer =>
            ((index.reloaded dimensionality metric vectorFor).remapped (stored.load components)
              layer).map UInt32.ofNat)⟩ := rfl
    _ = stored := by rw [layers, number]

theorem canonicalForm_reloaded :
    (index.reloaded dimensionality metric vectorFor).canonicalForm = index.canonicalForm := by
  obtain ⟨upper, _, explores, seed⟩ := reloaded_params writable dimensionality metric vectorFor
  have live := liveNodes_reloaded writable dimensionality metric vectorFor
  have nodes : (index.reloaded dimensionality metric vectorFor).liveNodes.map Prod.fst =
      index.canonicalForm.nodesOf vectorFor := by
    rw [live, List.zipIdx_map_fst, reloaded, load_nodes]
  have tops : (index.reloaded dimensionality metric vectorFor).liveNodes.map
      (fun entry => entry.1.topLayer) = index.liveNodes.map (fun entry => entry.1.topLayer) := by
    have through : (index.reloaded dimensionality metric vectorFor).liveNodes.map
        (fun entry => entry.1.topLayer) =
        ((index.reloaded dimensionality metric vectorFor).liveNodes.map Prod.fst).map
          HnswNode.topLayer := by
      rw [List.map_map]
      rfl
    rw [through, nodes, nodesOf, canonicalForm, List.map_map, List.map_map]
    apply List.map_congr_left
    intro entry member
    exact storedNode_top writable (show (entry.1, entry.2) ∈ index.liveNodes from member)
  have stored : (index.reloaded dimensionality metric vectorFor).liveNodes.map (fun entry =>
      (index.reloaded dimensionality metric vectorFor).storedNode entry.1) =
      index.canonicalForm.nodes := by
    have through : (index.reloaded dimensionality metric vectorFor).liveNodes.map (fun entry =>
        (index.reloaded dimensionality metric vectorFor).storedNode entry.1) =
        ((index.reloaded dimensionality metric vectorFor).liveNodes.map Prod.fst).map
          (index.reloaded dimensionality metric vectorFor).storedNode := by
      rw [List.map_map]
      rfl
    rw [through, nodes, nodesOf, List.map_map]
    calc index.canonicalForm.nodes.map _ = index.canonicalForm.nodes.map id :=
          List.map_congr_left (fun stored member =>
            storedNode_reloaded writable small dimensionality metric vectorFor member _)
      _ = index.canonicalForm.nodes := List.map_id _
  rw [canonicalForm, upper, explores, seed, tops, stored]
  rfl

end FixedPoint

section OwnRegion

/-- What reading an own region back relies on: identifiers short enough for
their length field, or a lookup that knows none but those of live records. -/
def Legible (index : HnswIndex) (vectorFor : RecordId → Option (List F32)) : Prop :=
  (∀ node ∈ index.nodes, node.deleted = false → node.id.length < 2 ^ 32) ∨
    ∀ id components, vectorFor id = some components →
      ∃ node ∈ index.nodes, node.deleted = false ∧ node.id = id

theorem putU32_inj {first second : UInt32} {rest other : Bytes}
    (same : putU32 first ++ rest = putU32 second ++ other) : first = second ∧ rest = other := by
  obtain ⟨fields, rests⟩ := List.append_inj same (by simp)
  exact ⟨UInt32.toNat_inj.mp (LittleEndian.split_inj first.toNat_lt second.toNat_lt fields), rests⟩

theorem putU64_inj {first second : UInt64} {rest other : Bytes}
    (same : putU64 first ++ rest = putU64 second ++ other) : first = second ∧ rest = other := by
  obtain ⟨fields, rests⟩ := List.append_inj same (by simp)
  exact ⟨UInt64.toNat_inj.mp (LittleEndian.split_inj first.toNat_lt second.toNat_lt fields), rests⟩

theorem load_inj {first second : StoredNode} {components : List F32}
    (same : first.load components = second.load components) : first = second := by
  simp only [StoredNode.load, HnswNode.mk.injEq] at same
  obtain ⟨ids, _, tops, _, layers⟩ := same
  have toNat_injective : Function.Injective UInt32.toNat := fun _ _ equal => UInt32.toNat_inj.mp equal
  have lists := List.map_injective_iff.mpr (List.map_injective_iff.mpr toNat_injective) layers
  cases first
  cases second
  simp only at ids tops lists
  rw [ids, UInt32.toNat_inj.mp tops, lists]

theorem putNode_inj {count : UInt32} {first second : StoredNode} {rest other : Bytes}
    (fits : first.Fits) (within : first.Within count) (fitsToo : second.Fits)
    (withinToo : second.Within count) (bounded : (putNode first ++ rest).length < word)
    (same : putNode first ++ rest = putNode second ++ other) : first = second ∧ rest = other := by
  have left := ByteReader.left_new _ bounded
  have parses := readNode_parses (fun _ => some []) count
  obtain ⟨next, read, remains⟩ := parses.forward _ (first.load []) _ _
    ⟨first, rfl, fits, within, [], rfl, rfl⟩ left
  rw [same] at left read
  obtain ⟨nextToo, readToo, remainsToo⟩ := parses.forward _ (second.load []) _ _
    ⟨second, rfl, fitsToo, withinToo, [], rfl, rfl⟩ left
  rw [read, Option.some.injEq, Prod.mk.injEq] at readToo
  rw [readToo.2] at remains
  exact ⟨load_inj readToo.1, remains.unique remainsToo⟩

theorem lt_append (first : Bytes) {rest : Bytes} (some_ : rest ≠ []) : first < first ++ rest := by
  induction first with
  | nil =>
      obtain ⟨head, tail, shape⟩ := List.exists_cons_of_ne_nil some_
      rw [shape]
      exact List.nil_lt_cons head tail
  | cons head tail ih => exact List.cons_lt_cons_iff.mpr (Or.inr ⟨rfl, ih⟩)

variable {index : HnswIndex} (writable : index.Writable)
  (small : index.nodes.length < 2 ^ 31)
  {vectorFor : RecordId → Option (List F32)}

theorem truncated_lt {stored other : StoredNode} {rest others : Bytes} (fits : other.Fits)
    (long : ¬ stored.id.length < 2 ^ 32)
    (same : putNode stored ++ rest = putNode other ++ others) : other.id < stored.id := by
  simp only [putNode, putString, List.append_assoc] at same
  rcases putU32_inj same with ⟨sizes, bodies⟩
  have size : other.id.length = stored.id.length % 2 ^ 32 := by
    have numbers := congrArg UInt32.toNat sizes
    rw [UInt32.toNat_ofNat_of_lt' fits.id, UInt32.toNat_ofNat'] at numbers
    exact numbers.symm
  have shorter : other.id.length < stored.id.length := by
    rw [size]
    exact lt_of_lt_of_le (Nat.mod_lt _ (by decide)) (not_lt.mp long)
  have halves : stored.id = other.id ++ stored.id.drop other.id.length := by
    have front := congrArg (List.take other.id.length) bodies
    rw [List.take_append_of_le_length shorter.le, List.take_left] at front
    have whole := List.take_append_drop other.id.length stored.id
    rw [front] at whole
    exact whole.symm
  have nonempty : stored.id.drop other.id.length ≠ [] := by
    intro empty
    have lengths := congrArg List.length empty
    rw [List.length_drop, List.length_nil] at lengths
    omega
  rw [halves]
  exact lt_append other.id nonempty

theorem legible_known (legible : index.Legible vectorFor) {stored : StoredNode}
    (member : stored ∈ index.canonicalForm.nodes) (long : ¬ stored.id.length < 2 ^ 32)
    {id : RecordId} {components : List F32} (resolved : vectorFor id = some components) :
    ∃ earlier ∈ index.canonicalForm.nodes, earlier.id = id := by
  rcases legible with allShort | answers
  · rcases mem_canonicalForm member with ⟨node, number, inside, isStored⟩
    have live := (mem_liveNodes node number).mp inside
    have fits := allShort node (List.mem_of_getElem? live.1) live.2
    rw [isStored] at long
    exact absurd fits long
  · rcases answers id components resolved with ⟨node, inside, live, named⟩
    rcases List.getElem?_of_mem inside with ⟨number, found⟩
    have listed := (mem_liveNodes node number).mpr ⟨found, live⟩
    exact ⟨index.storedNode node, List.mem_map.mpr ⟨(node, number), listed, rfl⟩, named⟩

include writable small

/-- Induction over the nodes not yet compared. A node whose identifier is too
long for its length field would be read under a prefix of it, which the lookup
either does not know or has answered for an earlier node. -/
theorem ownNodes_eq {region : HnswRegion} (fits : region.Fits)
    (accepted : region.Accepted vectorFor)
    (legible : index.Legible vectorFor)
    (count : region.nodes.length = index.canonicalForm.nodes.length)
    (rest others front : List StoredNode) (split : index.canonicalForm.nodes = front ++ rest)
    (splitToo : region.nodes = front ++ others)
    (bounded : (rest.flatMap putNode).length < word)
    (same : rest.flatMap putNode = others.flatMap putNode) : rest = others := by
  induction rest generalizing others front with
  | nil =>
      rw [split, splitToo, List.length_append, List.length_append, List.length_nil] at count
      exact (List.length_eq_zero_iff.mp (by omega)).symm
  | cons stored rest ih =>
      have lengths : others.length = rest.length + 1 := by
        rw [split, splitToo, List.length_append, List.length_append, List.length_cons] at count
        omega
      obtain ⟨other, others, shape⟩ := List.exists_cons_of_length_eq_add_one lengths
      rw [shape] at splitToo same ⊢
      rw [List.flatMap_cons] at bounded same
      rw [List.flatMap_cons] at same
      have member : stored ∈ index.canonicalForm.nodes := by
        rw [split]
        exact List.mem_append_right _ List.mem_cons_self
      have otherMember : other ∈ region.nodes := by
        rw [splitToo]
        exact List.mem_append_right _ List.mem_cons_self
      have otherFits := fits.nodes other otherMember
      by_cases short : stored.id.length < 2 ^ 32
      · obtain ⟨node, number, inside, isStored⟩ := mem_canonicalForm member
        have storedFits : stored.Fits := by
          rw [isStored] at short ⊢
          exact storedNode_fits writable small inside short
        have within := canonicalForm_within small stored member
        have otherWithin := accepted.within other otherMember
        rw [count] at otherWithin
        obtain ⟨equal, rests⟩ := putNode_inj storedFits within otherFits otherWithin bounded same
        rw [List.length_append] at bounded
        have tails := ih others (front ++ [stored]) (by rw [split]; simp)
          (by rw [splitToo, equal]; simp) (by omega) rests
        rw [equal, tails]
      · have less := truncated_lt otherFits short same
        obtain ⟨components, resolved⟩ := accepted.resolved other otherMember
        obtain ⟨earlier, there, named⟩ := legible_known legible member short resolved
        have ascending := canonicalForm_ascending writable
        rw [List.pairwise_map, split] at ascending
        have inFront : earlier ∈ front := by
          rw [split] at there
          rcases List.mem_append.mp there with before | after
          · exact before
          · have atLeast : stored.id ≤ earlier.id := by
              rcases List.mem_cons.mp after with here | later
              · rw [here]
              · have tail := (List.pairwise_append.mp ascending).2.1
                exact ((List.pairwise_cons.mp tail).1 earlier later).le
            rw [named] at atLeast
            exact absurd less atLeast.not_gt
        have distinct := accepted.distinct
        rw [splitToo, List.map_append, List.map_cons] at distinct
        have apart := (List.nodup_append.mp distinct).2.2 earlier.id
          (List.mem_map.mpr ⟨earlier, inFront, rfl⟩) other.id List.mem_cons_self
        exact absurd named apart

theorem deserialize_own {dimensionality : UInt32} {metric : DistanceMetric} {after : HnswIndex}
    (bounded : index.serialize.length < word)
    (legible : index.Legible vectorFor)
    (read : deserialize dimensionality metric index.serialize vectorFor = some after) :
    after = index.reloaded dimensionality metric vectorFor := by
  obtain ⟨region, written, fits, accepted, isAfter⟩ := deserialize_some bounded read
  have fewer := index.liveNodes_length_le
  have same := written
  simp only [serialize, put, List.append_assoc] at same
  obtain ⟨m, same⟩ := putU32_inj same
  obtain ⟨efConstruction, same⟩ := putU32_inj same
  obtain ⟨seed, same⟩ := putU64_inj same
  obtain ⟨count, same⟩ := putU32_inj same
  obtain ⟨maxLevel, same⟩ := putU32_inj same
  obtain ⟨entry, same⟩ := putU32_inj same
  have lengths : region.nodes.length = index.canonicalForm.nodes.length := by
    have numbers := congrArg UInt32.toNat count
    have low : index.canonicalForm.nodes.length < 2 ^ 32 := by
      rw [canonicalForm_length]
      omega
    rw [UInt32.toNat_ofNat_of_lt' low, UInt32.toNat_ofNat_of_lt' fits.count] at numbers
    exact numbers.symm
  have body : (index.canonicalForm.nodes.flatMap putNode).length < word := by
    rw [serialize, put, List.length_append] at bounded
    omega
  have nodes := ownNodes_eq writable small fits accepted legible lengths _ region.nodes [] rfl rfl
    body same
  have equal : region = index.canonicalForm :=
    HnswRegion.ext m.symm efConstruction.symm seed.symm maxLevel.symm entry.symm nodes.symm
  rw [isAfter, equal]
  rfl

end OwnRegion

end HnswIndex

end VectorVault
