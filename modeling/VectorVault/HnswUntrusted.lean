import VectorVault.HnswRoundTrip
import VectorVault.ExactLine

/-! Index regions that the program did not write.

`deserialize` checks each field of a region by itself. Two relations between
fields stay unchecked, and traversals of the index rely on both. -/

namespace VectorVault

open Snapshot FloatOrder

/-- The relations between a region's fields that `deserialize` does not check. -/
structure HnswRegion.CrossChecked (region : HnswRegion) : Prop where
  entry : ∀ (entry : Nat) (node : StoredNode), HnswIndex.asInt region.entry = entry →
    region.nodes[entry]? = some node → HnswIndex.asInt region.maxLevel ≤ node.topLayer.toNat
  edges : ∀ node ∈ region.nodes, ∀ layer list, node.layers[layer]? = some list →
    ∀ next ∈ list, ∃ other : StoredNode,
      region.nodes[next.toNat]? = some other ∧ layer ≤ other.topLayer.toNat

namespace HnswIndex

open HnswRegion

section Safety

variable {D : Type} [FloatOrder D] (host : Host D)

/-- The indexes that later additions and removals lead to. -/
inductive Later (index : HnswIndex) : HnswIndex → Prop
  | now : Later index index
  | add {before after : HnswIndex} {status : Status} (id : RecordId) (vec : List F32)
      (sofar : Later index before) (added : before.add host id vec = .ok (status, after)) :
      Later index after
  | remove {before after : HnswIndex} {status : Status} (id : RecordId)
      (sofar : Later index before) (removed : before.remove id = .ok (status, after)) :
      Later index after

structure Safe (index : HnswIndex) : Prop where
  entry : ∀ (entry : Nat) (held : HnswNode), index.entryPoint = entry →
    index.nodes[entry]? = some held → index.maxLevel ≤ held.topLayer
  edges : ∀ node ∈ index.nodes, ∀ layer list, node.neighbors[layer]? = some list →
    ∀ next ∈ list, ∃ other : HnswNode,
      index.nodes[next]? = some other ∧ layer ≤ other.topLayer
  searches : ∀ later, index.Later host later →
    ∀ q k params, ∃ candidates, later.search host q k params = .ok candidates
  adds : ∀ later, index.Later host later → ∀ id vec, ∃ result, later.add host id vec = .ok result

variable {host} {index : HnswIndex}

theorem Later.traversable {later : HnswIndex} (reached : index.Later host later)
    (traversable : index.Traversable) : later.Traversable := by
  induction reached with
  | now => exact traversable
  | add id vec _ added ih =>
      obtain ⟨_, _, result, kept⟩ := add_traversable host ih id vec
      rw [added] at result
      cases result
      exact kept
  | remove id _ removed ih =>
      obtain ⟨_, _, result, kept⟩ := remove_traversable ih id
      rw [removed] at result
      cases result
      exact kept

theorem Traversable.safe (traversable : index.Traversable) : index.Safe host := by
  have entry : ∀ (entry : Nat) (held : HnswNode), index.entryPoint = entry →
      index.nodes[entry]? = some held → index.maxLevel ≤ held.topLayer := by
    intro entry held isEntry found
    rcases traversable.entry with negative | ⟨number, node, isNumber, there, atMost⟩
    · omega
    · have same : number = entry := by omega
      rw [same, found, Option.some.injEq] at there
      rw [there]
      exact atMost
  have edges : ∀ node ∈ index.nodes, ∀ layer list, node.neighbors[layer]? = some list →
      ∀ next ∈ list, ∃ other : HnswNode,
        index.nodes[next]? = some other ∧ layer ≤ other.topLayer := by
    intro node member layer list stored next inside
    obtain ⟨number, found⟩ := List.getElem?_of_mem member
    have linked : next ∈ index.linked layer number := by
      simp only [HnswIndex.linked, found, stored, Option.getD_some]
      exact inside
    obtain ⟨other, there, long⟩ := traversable.edges layer number next linked
    have length := traversable.lists other (List.mem_of_getElem? there)
    exact ⟨other, there, by omega⟩
  have adds : ∀ later, index.Later host later →
      ∀ id vec, ∃ result, later.add host id vec = .ok result := by
    intro later reached id vec
    obtain ⟨status, after, result, _⟩ := add_traversable host (reached.traversable traversable) id vec
    exact ⟨(status, after), result⟩
  exact ⟨entry, edges, fun later reached q k params =>
    search_ok host q k params (reached.traversable traversable), adds⟩

end Safety

section Load

variable {dimensionality : UInt32} {metric : DistanceMetric}
  {vectorFor : RecordId → Option (List F32)} {region : HnswRegion}

theorem load_maxLevel : (region.load dimensionality metric vectorFor).maxLevel =
    asInt region.maxLevel := by
  by_cases none : region.maxLevel = 0xFFFFFFFF
  · simp only [load, none, if_true]
    decide
  · simp only [load, if_neg none]

variable (dimensionality metric vectorFor) in
theorem load_get {number : Nat} {stored : StoredNode} (found : region.nodes[number]? = some stored) :
    (region.load dimensionality metric vectorFor).nodes[number]? =
      some (stored.load ((vectorFor stored.id).getD [])) := by
  rw [load_nodes, nodesOf, List.getElem?_map, found]
  rfl

theorem load_lists (fits : region.Fits) :
    ∀ node ∈ (region.load dimensionality metric vectorFor).nodes,
      node.neighbors.length = node.topLayer + 1 := by
  intro node member
  rw [load_nodes] at member
  rcases List.mem_map.mp member with ⟨stored, inside, same⟩
  rw [← same]
  calc (stored.layers.map (List.map UInt32.toNat)).length = stored.layers.length := List.length_map _
    _ = stored.topLayer.toNat + 1 := (fits.nodes stored inside).layers

theorem load_edges (fits : region.Fits) (checked : region.CrossChecked) :
    (region.load dimensionality metric vectorFor).EdgesOnLayer := by
  intro layer number next member
  rw [load_linked] at member
  cases found : region.nodes[number]? with
  | none =>
      rw [found] at member
      cases member
  | some stored =>
      simp only [found, List.getD_eq_getElem?_getD] at member
      cases there : stored.layers[layer]? with
      | none =>
          rw [there] at member
          cases member
      | some list =>
          rw [there, Option.getD_some] at member
          rcases List.mem_map.mp member with ⟨written, inside, same⟩
          rcases checked.edges stored (List.mem_of_getElem? found) layer list there written inside
            with ⟨other, isOther, atMost⟩
          rw [same] at isOther
          have loaded := load_get dimensionality metric vectorFor isOther
          have length := load_lists fits _ (List.mem_of_getElem? loaded)
          exact ⟨_, loaded, by rw [length]; exact Nat.lt_succ_of_le atMost⟩

theorem load_entry (accepted : region.Accepted vectorFor) (checked : region.CrossChecked) :
    (region.load dimensionality metric vectorFor).entryPoint < 0 ∨
      ∃ (entry : Nat) (held : HnswNode),
        (region.load dimensionality metric vectorFor).entryPoint = entry ∧
        (region.load dimensionality metric vectorFor).nodes[entry]? = some held ∧
        (region.load dimensionality metric vectorFor).maxLevel ≤ held.topLayer := by
  by_cases empty : region.nodes = []
  · left
    simp only [load, empty, if_true]
    decide
  · have isEntry : (region.load dimensionality metric vectorFor).entryPoint =
        asInt region.entry := by
      simp only [load, if_neg empty]
    have inside := (accepted.entry empty).2
    rw [isEntry]
    by_cases large : region.entry.toNat < 2 ^ 31
    · right
      have number : asInt region.entry = region.entry.toNat := by
        rw [asInt, if_pos large]
      have found := List.getElem?_eq_getElem inside
      have low := checked.entry _ _ number found
      rw [← @load_maxLevel dimensionality metric vectorFor] at low
      exact ⟨_, _, number, load_get dimensionality metric vectorFor found, low⟩
    · left
      have bound := region.entry.toNat_lt
      rw [asInt, if_neg large]
      omega

theorem load_traversable (fits : region.Fits) (accepted : region.Accepted vectorFor)
    (checked : region.CrossChecked) :
    (region.load dimensionality metric vectorFor).Traversable := by
  have directory : ∀ id node,
      (region.load dimensionality metric vectorFor).idToInternal.find? id = some node →
        node < (region.load dimensionality metric vectorFor).nodes.length := by
    intro id number known
    rcases (load_directory dimensionality metric vectorFor region accepted.distinct id number).mp
      known with ⟨node, found, _⟩
    rw [load_nodes]
    exact (List.getElem?_eq_some_iff.mp found).1
  have explores : 1 ≤ (region.load dimensionality metric vectorFor).efConstruction.toNat := by
    rw [(load_fixed dimensionality metric vectorFor region).2.2.1]
    split
    · decide
    · next large =>
        rw [UInt32.lt_iff_toNat_lt] at large
        exact not_lt.mp large
  exact ⟨load_lists fits, load_edges fits checked, load_entry accepted checked, directory, explores⟩

theorem crossChecked_of_safe {D : Type} [FloatOrder D] {host : Host D}
    (safe : (region.load dimensionality metric vectorFor).Safe host) : region.CrossChecked := by
  constructor
  · intro entry node isEntry found
    have nonempty : region.nodes ≠ [] := by
      intro empty
      rw [empty] at found
      cases found
    have named : (region.load dimensionality metric vectorFor).entryPoint = entry := by
      rw [← isEntry]
      simp only [load, if_neg nonempty]
    have low := safe.entry entry _ named (load_get dimensionality metric vectorFor found)
    rw [load_maxLevel] at low
    exact low
  · intro node member layer list stored next inside
    obtain ⟨number, found⟩ := List.getElem?_of_mem member
    have loaded := load_get dimensionality metric vectorFor found
    have layers : (node.load ((vectorFor node.id).getD [])).neighbors[layer]? =
        some (list.map UInt32.toNat) := by
      simp only [StoredNode.load, List.getElem?_map, stored, Option.map_some]
    obtain ⟨other, there, atMost⟩ := safe.edges _ (List.mem_of_getElem? loaded) layer _ layers
      next.toNat (List.mem_map.mpr ⟨next, inside, rfl⟩)
    rw [load_nodes] at there
    obtain ⟨written, isWritten, same⟩ := nodesOf_get vectorFor region there
    rw [same] at atMost
    exact ⟨written, isWritten, atMost⟩

end Load

/-- Exactly the regions whose fields agree are read as safe indexes. -/
theorem deserialize_safe_iff {D : Type} [FloatOrder D] (host : Host D) (dimensionality : UInt32)
    (metric : DistanceMetric) (data : Bytes) (vectorFor : RecordId → Option (List F32))
    (small : data.length < word) :
    (∀ index, deserialize dimensionality metric data vectorFor = some index → index.Safe host) ↔
      ∀ region : HnswRegion, region.put = data → region.Fits → region.Accepted vectorFor →
        region.CrossChecked := by
  constructor
  · intro safe region written fits accepted
    have bounded : region.put.length < word := by
      rw [written]
      exact small
    have read : deserialize dimensionality metric region.put vectorFor =
        some (region.load dimensionality metric vectorFor) := deserialize_load fits accepted bounded
    rw [written] at read
    exact crossChecked_of_safe (safe _ read)
  · intro checked index read
    obtain ⟨region, written, fits, accepted, isIndex⟩ := deserialize_some small read
    rw [isIndex]
    exact (load_traversable fits accepted
      (checked region written.symm fits accepted)).safe

/-- One node of top layer 0 in a graph said to be one layer taller. -/
def tallerThanEntry : HnswRegion :=
  { m := 2, efConstruction := 1, seed := 0, maxLevel := 1, entry := 0,
    nodes := [⟨[97], 0, [[]]⟩] }

/-- The region is accepted, and the first descent of a search asks for a list
its entry point does not have. -/
theorem search_faults_above_entry :
    ∃ index, deserialize 1 .euclidean tallerThanEntry.put (fun _ => some [0]) = some index ∧
      index.search (ExactLine.host []) [0] 1 {} = .error .outOfRange :=
  ⟨_, rfl, rfl⟩

theorem deserialize_unsafe_above_entry :
    ¬ ∀ index, deserialize 1 .euclidean tallerThanEntry.put (fun _ => some [0]) = some index →
      index.Safe (ExactLine.host []) := by
  have bounded : tallerThanEntry.put.length < word := by decide
  have fits : tallerThanEntry.Fits := by
    refine ⟨by decide, ?_⟩
    intro node member
    rw [List.mem_singleton.mp member]
    exact ⟨by decide, by decide, rfl, by decide⟩
  have accepted : tallerThanEntry.Accepted (fun _ => some [0]) := by
    refine ⟨?_, by decide, fun node _ => ⟨[0], rfl⟩, fun _ => by decide⟩
    intro node member
    rw [List.mem_singleton.mp member]
    intro neighbors inside
    rw [List.mem_singleton.mp inside]
    intro neighbor none
    cases none
  intro safe
  have checked := (deserialize_safe_iff (ExactLine.host []) 1 .euclidean tallerThanEntry.put
    (fun _ => some [0]) bounded).mp safe tallerThanEntry rfl fits accepted
  have low := checked.entry 0 ⟨[97], 0, [[]]⟩ rfl rfl
  exact absurd low (by decide)

end HnswIndex

end VectorVault
