import VectorVault.HnswRegion

/-! Reading a region back is the inverse of writing one.

`deserialize` accepts exactly the bytes of a region whose fields pass its own
checks, and the index it returns is a function of those fields. -/

namespace VectorVault

open Snapshot

/-- A parser that accepts exactly the byte strings of a shape, and says what they hold. -/
structure Parses {A : Type} (parse : ByteReader → Option (A × ByteReader))
    (shape : A → Bytes → Prop) : Prop where
  forward : ∀ reader value part rest, shape value part → reader.Left (part ++ rest) →
    ∃ next, parse reader = some (value, next) ∧ next.Left rest
  backward : ∀ reader bytes value next, reader.Left bytes → parse reader = some (value, next) →
    ∃ part rest, bytes = part ++ rest ∧ shape value part ∧ next.Left rest

namespace StoredNode

/-- What the widths of the fields can hold, and one list for each layer. -/
structure Fits (node : StoredNode) : Prop where
  id : node.id.length < 2 ^ 32
  topLayer : node.topLayer.toNat < 2 ^ 31
  layers : node.layers.length = node.topLayer.toNat + 1
  degrees : ∀ neighbors ∈ node.layers, neighbors.length < 2 ^ 32

def Within (node : StoredNode) (count : UInt32) : Prop :=
  ∀ neighbors ∈ node.layers, ∀ neighbor ∈ neighbors, neighbor < count

def load (node : StoredNode) (components : List F32) : HnswNode :=
  ⟨node.id, components, node.topLayer.toNat, false,
    node.layers.map (fun neighbors => neighbors.map UInt32.toNat)⟩

end StoredNode

namespace HnswIndex

open HnswRegion

def neighborsShape (count : UInt32) (degree : Nat) (read : List Nat) (bytes : Bytes) : Prop :=
  ∃ stored : List UInt32, bytes = stored.flatMap putU32 ∧ stored.length = degree ∧
    (∀ neighbor ∈ stored, neighbor < count) ∧ read = stored.map UInt32.toNat

theorem readNeighbors_parses (count : UInt32) (degree : Nat) :
    Parses (readNeighbors count degree) (neighborsShape count degree) := by
  induction degree with
  | zero =>
      constructor
      · intro reader value part rest shape left
        obtain ⟨stored, written, size, _, read⟩ := shape
        rw [List.length_eq_zero_iff.mp size] at written read
        rw [written] at left
        exact ⟨reader, by rw [read]; rfl, left⟩
      · intro reader bytes value next left parsed
        simp only [readNeighbors, Option.some.injEq, Prod.mk.injEq] at parsed
        rw [← parsed.1, ← parsed.2]
        exact ⟨[], bytes, rfl, ⟨[], rfl, rfl, by simp, rfl⟩, left⟩
  | succ degree ih =>
      constructor
      · intro reader value part rest shape left
        obtain ⟨stored, written, size, small, read⟩ := shape
        obtain ⟨head, tail, isStored⟩ := List.exists_cons_of_length_eq_add_one size
        rw [isStored] at written size small read
        rw [written, List.flatMap_cons, List.append_assoc] at left
        obtain ⟨first, afterFirst⟩ := inverse_u32.forward reader head _ trivial left
        obtain ⟨next, parsed, done⟩ := ih.forward _ (tail.map UInt32.toNat) _ _
          ⟨tail, rfl, by simpa using size, fun n member => small n (List.mem_cons_of_mem _ member),
            rfl⟩ afterFirst
        have inside : ¬ (reader.getU32.2.ok = false ∨ head ≥ count) := by
          rw [afterFirst.1]
          have less := small head List.mem_cons_self
          simpa using less
        have result : readNeighbors count (degree + 1) reader = some (value, next) := by
          rw [readNeighbors, read]
          simp only [first, if_neg inside, parsed]
          rfl
        exact ⟨next, result, done⟩
      · intro reader bytes value next left parsed
        rw [readNeighbors] at parsed
        by_cases bad : reader.getU32.2.ok = false ∨ reader.getU32.1 ≥ count
        · simp only [if_pos bad] at parsed
          cases parsed
        · simp only [if_neg bad] at parsed
          obtain ⟨⟨others, later⟩, readRest, isValue⟩ := Option.bind_eq_some_iff.mp parsed
          have ok : reader.getU32.2.ok = true := by
            have good := (not_or.mp bad).1
            simpa using good
          obtain ⟨_, rest, halves, after⟩ := inverse_u32.backward reader bytes left ok
          obtain ⟨part, tail, split, shape, done⟩ := ih.backward _ _ _ _ after readRest
          obtain ⟨stored, written, size, small, read⟩ := shape
          simp only [Option.some.injEq, Prod.mk.injEq] at isValue
          have shapeNow : neighborsShape count (degree + 1) value (putU32 reader.getU32.1 ++ part) := by
            have smallNow : ∀ neighbor ∈ reader.getU32.1 :: stored, neighbor < count := by
              intro neighbor member
              rcases List.mem_cons.mp member with rfl | member
              · have less := (not_or.mp bad).2
                simpa using less
              · exact small neighbor member
            exact ⟨reader.getU32.1 :: stored, by rw [List.flatMap_cons, ← written], by simp [size],
              smallNow, by rw [← isValue.1, read]; rfl⟩
          exact ⟨_, tail, by rw [halves, split, List.append_assoc], shapeNow,
            by rw [← isValue.2]; exact done⟩

def layersShape (count : UInt32) (layers : Nat) (read : List (List Nat)) (bytes : Bytes) : Prop :=
  ∃ stored : List (List UInt32), bytes = stored.flatMap putLayer ∧ stored.length = layers ∧
    (∀ neighbors ∈ stored, neighbors.length < 2 ^ 32 ∧ ∀ neighbor ∈ neighbors, neighbor < count) ∧
    read = stored.map (fun neighbors => neighbors.map UInt32.toNat)

theorem readLayers_parses (count : UInt32) (layers : Nat) :
    Parses (readLayers count layers) (layersShape count layers) := by
  induction layers with
  | zero =>
      constructor
      · intro reader value part rest shape left
        obtain ⟨stored, written, size, _, read⟩ := shape
        rw [List.length_eq_zero_iff.mp size] at written read
        rw [written] at left
        exact ⟨reader, by rw [read]; rfl, left⟩
      · intro reader bytes value next left parsed
        simp only [readLayers, Option.some.injEq, Prod.mk.injEq] at parsed
        rw [← parsed.1, ← parsed.2]
        exact ⟨[], bytes, rfl, ⟨[], rfl, rfl, by simp, rfl⟩, left⟩
  | succ layers ih =>
      constructor
      · intro reader value part rest shape left
        obtain ⟨stored, written, size, good, read⟩ := shape
        obtain ⟨head, tail, isStored⟩ := List.exists_cons_of_length_eq_add_one size
        rw [isStored] at written size good read
        rw [written, List.flatMap_cons, putLayer, List.append_assoc, List.append_assoc] at left
        obtain ⟨first, afterFirst⟩ := inverse_u32.forward reader _ _ trivial left
        have headGood := good head List.mem_cons_self
        have degree : reader.getU32.1.toNat = head.length := by
          rw [first]
          exact UInt32.toNat_ofNat_of_lt' headGood.1
        obtain ⟨middle, parsedHead, afterHead⟩ :=
          (readNeighbors_parses count head.length).forward _ (head.map UInt32.toNat) _ _
            ⟨head, rfl, rfl, headGood.2, rfl⟩ afterFirst
        obtain ⟨next, parsed, done⟩ := ih.forward _
          (tail.map (fun neighbors => neighbors.map UInt32.toNat)) _ _
          ⟨tail, rfl, by simpa using size, fun n member => good n (List.mem_cons_of_mem _ member),
            rfl⟩ afterHead
        have result : readLayers count (layers + 1) reader = some (value, next) := by
          rw [readLayers, read]
          simp only [afterFirst.1, Bool.true_eq_false, if_false, degree, parsedHead]
          simp only [bind, Option.bind, parsed]
          rfl
        exact ⟨next, result, done⟩
      · intro reader bytes value next left parsed
        rw [readLayers] at parsed
        cases ok : reader.getU32.2.ok with
        | false =>
            simp only [ok, if_true] at parsed
            cases parsed
        | true =>
            simp only [ok, Bool.true_eq_false, if_false] at parsed
            obtain ⟨⟨neighbors, middle⟩, readHead, parsed⟩ := Option.bind_eq_some_iff.mp parsed
            obtain ⟨⟨others, later⟩, readRest, isValue⟩ := Option.bind_eq_some_iff.mp parsed
            obtain ⟨_, rest, halves, after⟩ := inverse_u32.backward reader bytes left ok
            obtain ⟨headPart, headRest, headSplit, headShape, afterHead⟩ :=
              (readNeighbors_parses count _).backward _ _ _ _ after readHead
            obtain ⟨part, tail, split, shape, done⟩ := ih.backward _ _ _ _ afterHead readRest
            obtain ⟨head, headWritten, headSize, headSmall, headRead⟩ := headShape
            obtain ⟨stored, written, size, good, read⟩ := shape
            simp only [Option.some.injEq, Prod.mk.injEq] at isValue
            have degree : putU32 (UInt32.ofNat head.length) = putU32 reader.getU32.1 := by
              rw [headSize, UInt32.ofNat_toNat]
            have shapeNow : layersShape count (layers + 1) value
                (putU32 reader.getU32.1 ++ (headPart ++ part)) := by
              have goodNow : ∀ neighbors ∈ head :: stored,
                  neighbors.length < 2 ^ 32 ∧ ∀ neighbor ∈ neighbors, neighbor < count := by
                intro neighbors member
                rcases List.mem_cons.mp member with rfl | member
                · exact ⟨by rw [headSize]; exact reader.getU32.1.toNat_lt, headSmall⟩
                · exact good neighbors member
              exact ⟨head :: stored, by
                rw [List.flatMap_cons, putLayer, degree, ← headWritten, ← written,
                  List.append_assoc], by simp [size], goodNow, by
                rw [← isValue.1, read, headRead]
                rfl⟩
            exact ⟨_, tail, by rw [halves, headSplit, split, List.append_assoc, List.append_assoc],
              shapeNow, by rw [← isValue.2]; exact done⟩

section Nodes

variable (vectorFor : RecordId → Option (List F32)) (count : UInt32)

def nodeShape (node : HnswNode) (bytes : Bytes) : Prop :=
  ∃ stored : StoredNode, bytes = putNode stored ∧ stored.Fits ∧ stored.Within count ∧
    ∃ components, vectorFor stored.id = some components ∧ node = stored.load components

theorem readNode_parses :
    Parses (readNode vectorFor count) (nodeShape vectorFor count) := by
  constructor
  · intro reader value part rest shape left
    obtain ⟨stored, written, fits, within, components, resolved, isValue⟩ := shape
    rw [written, putNode, List.append_assoc, List.append_assoc] at left
    obtain ⟨readId, afterId⟩ := inverse_string.forward reader _ _ fits.id left
    obtain ⟨readTop, afterTop⟩ := inverse_u32.forward _ _ _ trivial afterId
    obtain ⟨next, parsed, done⟩ := (readLayers_parses count (stored.topLayer.toNat + 1)).forward _
      (stored.layers.map (fun neighbors => neighbors.map UInt32.toNat)) _ _
      ⟨stored.layers, rfl, fits.layers,
        fun neighbors member => ⟨fits.degrees neighbors member, within neighbors member⟩, rfl⟩
      afterTop
    have good : ¬ (reader.getString.2.getU32.2.ok = false ∨ stored.topLayer.toNat ≥ 2 ^ 31) := by
      rw [afterTop.1]
      have low := fits.topLayer
      simpa using low
    have result : readNode vectorFor count reader = some (value, next) := by
      rw [readNode, isValue]
      simp only [readId, readTop, if_neg good, resolved]
      simp only [bind, Option.bind, parsed]
      rfl
    exact ⟨next, result, done⟩
  · intro reader bytes value next left parsed
    rw [readNode] at parsed
    by_cases bad : reader.getString.2.getU32.2.ok = false ∨
        reader.getString.2.getU32.1.toNat ≥ 2 ^ 31
    · simp only [if_pos bad] at parsed
      cases parsed
    · simp only [if_neg bad] at parsed
      obtain ⟨components, resolved, parsed⟩ := Option.bind_eq_some_iff.mp parsed
      obtain ⟨⟨layers, later⟩, readRest, isValue⟩ := Option.bind_eq_some_iff.mp parsed
      have okTop : reader.getString.2.getU32.2.ok = true := by
        have good := (not_or.mp bad).1
        simpa using good
      have low : reader.getString.2.getU32.1.toNat < 2 ^ 31 := by
        have good := (not_or.mp bad).2
        omega
      have okId := inverse_u32.sticky _ okTop
      obtain ⟨short, rest, halves, afterId⟩ := inverse_string.backward reader bytes left okId
      obtain ⟨_, tail, tailHalves, afterTop⟩ := inverse_u32.backward _ _ afterId okTop
      obtain ⟨part, final, split, shape, done⟩ :=
        (readLayers_parses count _).backward _ _ _ _ afterTop readRest
      obtain ⟨stored, written, size, good, read⟩ := shape
      simp only [Option.some.injEq, Prod.mk.injEq] at isValue
      have shapeNow : nodeShape vectorFor count value
          (putString reader.getString.1 ++ (putU32 reader.getString.2.getU32.1 ++ part)) :=
        ⟨⟨reader.getString.1, reader.getString.2.getU32.1, stored⟩, by
          rw [putNode, List.append_assoc, ← written],
          ⟨short, low, size, fun neighbors member => (good neighbors member).1⟩,
          fun neighbors member => (good neighbors member).2, components, resolved, by
          rw [← isValue.1, read]
          rfl⟩
      exact ⟨_, final, by rw [halves, tailHalves, split]; simp only [List.append_assoc],
        shapeNow, by rw [← isValue.2]; exact done⟩

def loadNode (index : HnswIndex) (node : HnswNode) : HnswIndex :=
  { index with
    idToInternal := index.idToInternal.emplace node.id index.nodes.length
    nodes := index.nodes ++ [node] }

def nodesShape (remaining : Nat) (index : HnswIndex) (loaded : HnswIndex) (bytes : Bytes) : Prop :=
  ∃ (stored : List StoredNode) (nodes : List HnswNode), bytes = stored.flatMap putNode ∧
    stored.length = remaining ∧ List.Forall₂ (fun node entry =>
      StoredNode.Fits entry ∧ entry.Within count ∧
        ∃ components, vectorFor entry.id = some components ∧ node = entry.load components)
      nodes stored ∧
    (∀ node ∈ nodes, index.idToInternal.find? node.id = none) ∧
    (nodes.map HnswNode.id).Nodup ∧ loaded = nodes.foldl loadNode index

theorem loadNode_find (index : HnswIndex) (node : HnswNode) (id : RecordId)
    (absent : index.idToInternal.find? node.id = none) :
    (loadNode index node).idToInternal.find? id =
      if id = node.id then some index.nodes.length else index.idToInternal.find? id := by
  rw [loadNode, OrderedMap.emplace_of_absent _ _ _ absent, OrderedMap.find_insert]
  by_cases same : id = node.id
  · rw [if_pos same, if_pos same]
  · rw [if_neg same, if_neg same]

theorem fresh_cons_iff (index : HnswIndex) (node : HnswNode) (nodes : List HnswNode) :
    ((∀ other ∈ node :: nodes, index.idToInternal.find? other.id = none) ∧
      ((node :: nodes).map HnswNode.id).Nodup) ↔
    index.idToInternal.find? node.id = none ∧
      (∀ other ∈ nodes, (loadNode index node).idToInternal.find? other.id = none) ∧
      (nodes.map HnswNode.id).Nodup := by
  rw [List.map_cons, List.nodup_cons]
  constructor
  · intro both
    rcases both with ⟨fresh, apart, distinct⟩
    have absent := fresh node List.mem_cons_self
    refine ⟨absent, ?_, distinct⟩
    intro other member
    have elsewhere : other.id ≠ node.id := fun same =>
      apart (List.mem_map.mpr ⟨other, member, same⟩)
    rw [loadNode_find index node other.id absent, if_neg elsewhere]
    exact fresh other (List.mem_cons_of_mem _ member)
  · intro parts
    rcases parts with ⟨absent, later, distinct⟩
    have notHead : ∀ other ∈ nodes, other.id ≠ node.id ∧
        index.idToInternal.find? other.id = none := by
      intro other member
      have found := later other member
      rw [loadNode_find index node other.id absent] at found
      split at found
      · cases found
      · next elsewhere => exact ⟨elsewhere, found⟩
    refine ⟨?_, ?_, distinct⟩
    · intro other member
      rcases List.mem_cons.mp member with here | inside
      · rw [here]
        exact absent
      · exact (notHead other inside).2
    · intro member
      rcases List.mem_map.mp member with ⟨other, inside, same⟩
      exact (notHead other inside).1 same

theorem readNodes_parses (remaining : Nat) (index : HnswIndex) :
    Parses (readNodes vectorFor count remaining index.nodes.length index)
      (nodesShape vectorFor count remaining index) := by
  induction remaining generalizing index with
  | zero =>
      constructor
      · intro reader value part rest shape left
        obtain ⟨stored, nodes, written, size, paired, _, _, isValue⟩ := shape
        rw [List.length_eq_zero_iff.mp size] at written paired
        cases paired
        rw [written] at left
        exact ⟨reader, by rw [isValue]; rfl, left⟩
      · intro reader bytes value next left parsed
        simp only [readNodes, Option.some.injEq, Prod.mk.injEq] at parsed
        rw [← parsed.1, ← parsed.2]
        exact ⟨[], bytes, rfl, ⟨[], [], rfl, rfl, List.Forall₂.nil, by simp, by simp, rfl⟩, left⟩
  | succ remaining ih =>
      constructor
      · intro reader value part rest shape left
        obtain ⟨stored, nodes, written, size, paired, fresh, distinct, isValue⟩ := shape
        cases paired with
        | nil => cases size
        | cons headPair tailPairs =>
            rename_i node entry nodes stored
            obtain ⟨fits, within, components, resolved, isNode⟩ := headPair
            rw [written, List.flatMap_cons, List.append_assoc] at left
            obtain ⟨middle, parsedNode, afterNode⟩ := (readNode_parses vectorFor count).forward _
              node _ _ ⟨entry, rfl, fits, within, components, resolved, isNode⟩ left
            rcases (fresh_cons_iff index node nodes).mp ⟨fresh, distinct⟩ with
              ⟨absent, later, distinctLater⟩
            obtain ⟨next, parsed, done⟩ := (ih (loadNode index node)).forward _ value _ _
              ⟨stored, nodes, rfl, by simpa using size, tailPairs, later,
                distinctLater, isValue⟩ afterNode
            have missing : index.idToInternal.contains node.id = false :=
              (OrderedMap.contains_eq_false_iff _ _).mpr absent
            have number : (loadNode index node).nodes.length = index.nodes.length + 1 := by
              simp [loadNode]
            rw [number] at parsed
            have result : readNodes vectorFor count (remaining + 1) index.nodes.length index reader =
                some (value, next) := by
              rw [readNodes]
              simp only [bind, Option.bind, parsedNode, missing, Bool.false_eq_true, if_false]
              exact parsed
            exact ⟨next, result, done⟩
      · intro reader bytes value next left parsed
        rw [readNodes] at parsed
        obtain ⟨⟨node, middle⟩, readHead, parsed⟩ := Option.bind_eq_some_iff.mp parsed
        cases present : index.idToInternal.contains node.id with
        | true =>
            simp only [present, if_true] at parsed
            cases parsed
        | false =>
            simp only [present, Bool.false_eq_true, if_false] at parsed
            have absent := (OrderedMap.contains_eq_false_iff _ _).mp present
            have number : index.nodes.length + 1 = (loadNode index node).nodes.length := by
              simp [loadNode]
            rw [number] at parsed
            obtain ⟨headPart, rest, halves, headShape, after⟩ :=
              (readNode_parses vectorFor count).backward _ _ _ _ left readHead
            obtain ⟨part, tail, split, shape, done⟩ :=
              (ih (loadNode index node)).backward _ _ _ _ after parsed
            obtain ⟨entry, entryWritten, fits, within, components, resolved, isNode⟩ := headShape
            obtain ⟨stored, nodes, written, size, paired, fresh, distinct, isValue⟩ := shape
            rcases (fresh_cons_iff index node nodes).mpr ⟨absent, fresh, distinct⟩ with
              ⟨freshNow, distinctNow⟩
            have shapeNow : nodesShape vectorFor count (remaining + 1) index value
                (headPart ++ part) :=
              ⟨entry :: stored, node :: nodes, by
                rw [List.flatMap_cons, ← written, ← entryWritten], by simp [size],
                List.Forall₂.cons ⟨fits, within, components, resolved, isNode⟩ paired, freshNow,
                distinctNow, isValue⟩
            exact ⟨_, tail, by rw [halves, split, List.append_assoc], shapeNow, done⟩

end Nodes

end HnswIndex

end VectorVault
