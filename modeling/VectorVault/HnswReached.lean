import VectorVault.HnswRoundTrip
import VectorVault.ExactLine

/-! The indexes that additions, removals and reloads of their own regions reach. -/

namespace VectorVault.HnswIndex

section Reached

variable {D : Type} [FloatOrder D]

/-- Node numbers stay below the 2³¹ that an `int` entry point can name. -/
inductive Reached (host : Host D) (dimensionality : UInt32) (metric : DistanceMetric)
    (params : IndexParams) : HnswIndex → Prop
  | new : Reached host dimensionality metric params (new dimensionality metric params)
  | add {index after : HnswIndex} {status : Status} (id : RecordId) (vec : List F32)
      (before : Reached host dimensionality metric params index)
      (added : index.add host id vec = .ok (status, after))
      (small : after.nodes.length < 2 ^ 31) : Reached host dimensionality metric params after
  | remove {index after : HnswIndex} {status : Status} (id : RecordId)
      (before : Reached host dimensionality metric params index)
      (removed : index.remove id = .ok (status, after)) :
      Reached host dimensionality metric params after
  | reload {index after : HnswIndex} (vectorFor : RecordId → Option (List F32))
      (before : Reached host dimensionality metric params index)
      (bounded : index.serialize.length < word)
      (legible : index.Legible vectorFor)
      (read : deserialize dimensionality metric index.serialize vectorFor = some after) :
      Reached host dimensionality metric params after

variable {host : Host D} {dimensionality : UInt32} {metric : DistanceMetric}
  {params : IndexParams} {index : HnswIndex}

/-- What one step keeps, besides being well formed. -/
structure Configured (dimensionality : UInt32) (metric : DistanceMetric) (params : IndexParams)
    (index : HnswIndex) : Prop where
  upper : index.maxNeighborsUpper = (new dimensionality metric params).maxNeighborsUpper
  small : index.nodes.length < 2 ^ 31

theorem Reached.wellFormed (reached : Reached host dimensionality metric params index) :
    index.WellFormed ∧ index.Configured dimensionality metric params := by
  induction reached with
  | new => exact ⟨new_wellFormed dimensionality metric params, rfl, by simp [HnswIndex.new]⟩
  | add id vec _ added small ih =>
      obtain ⟨_, _, result, wellFormed⟩ := add_wellFormed host ih.1 id vec
      have upper := congrArg (fun settings => settings.2.2.1) (add_settings host ih.1.traversable added)
      rw [added] at result
      cases result
      exact ⟨wellFormed, upper.trans ih.2.upper, small⟩
  | remove id _ removed ih =>
      obtain ⟨_, _, result, wellFormed⟩ := remove_wellFormed ih.1 id
      obtain ⟨settings, length⟩ := remove_settings ih.1.traversable removed
      have upper := congrArg (fun settings => settings.2.2.1) settings
      rw [removed] at result
      cases result
      exact ⟨wellFormed, upper.trans ih.2.upper, by rw [length]; exact ih.2.small⟩
  | @reload index _ vectorFor _ bounded legible read ih =>
      have same := deserialize_own ih.1.writable ih.2.small bounded legible read
      obtain ⟨upper, _⟩ := reloaded_params ih.1.writable dimensionality metric vectorFor
      have length := reloaded_length dimensionality metric vectorFor index
      have fewer := index.liveNodes_length_le
      rw [same]
      exact ⟨reloaded_wellFormed ih.1 ih.2.small dimensionality metric vectorFor,
        upper.trans ih.2.upper, by have small := ih.2.small; omega⟩

/-- The graph of an index whose lists hold up to `m` neighbours. -/
structure Sound (m : Nat) (index : HnswIndex) : Prop where
  lists : ∀ node ∈ index.nodes, node.neighbors.length = node.topLayer + 1
  edges : ∀ (node : Nat) (held : HnswNode) (layer : Nat) (list : List Nat),
    index.nodes[node]? = some held → held.neighbors[layer]? = some list →
      ∀ next ∈ list, next ≠ node ∧
        ∃ other : HnswNode, index.nodes[next]? = some other ∧ layer ≤ other.topLayer
  nodup : ∀ node ∈ index.nodes, ∀ list ∈ node.neighbors, list.Nodup
  degree : ∀ node ∈ index.nodes, ∀ layer list, node.neighbors[layer]? = some list →
    list.length ≤ if layer = 0 then 2 * m else m
  directory : ∀ id node, index.idToInternal.find? id = some node ↔
    ∃ held, index.nodes[node]? = some held ∧ held.id = id
  bijection : ∀ node < index.nodes.length, ∃! id, index.idToInternal.find? id = some node
  liveCount : index.liveCount = index.nodes.countP (fun node => !node.deleted)
  entry : index.nodes ≠ [] → ∃ (entry : Nat) (held : HnswNode), index.entryPoint = entry ∧
    index.nodes[entry]? = some held ∧ (held.topLayer : Int) = index.maxLevel ∧
    ∀ other ∈ index.nodes, other.topLayer ≤ held.topLayer

theorem linked_of_get {node : Nat} {held : HnswNode} {layer : Nat} {list : List Nat}
    (found : index.nodes[node]? = some held) (stored : held.neighbors[layer]? = some list) :
    index.linked layer node = list := by
  simp only [linked, found, stored, Option.getD_some]

theorem WellFormed.sound (wellFormed : index.WellFormed) :
    index.Sound index.maxNeighborsUpper.toNat := by
  have lists : ∀ node ∈ index.nodes, node.neighbors.length = node.topLayer + 1 :=
    wellFormed.traversable.lists
  have edges : ∀ (node : Nat) (held : HnswNode) (layer : Nat) (list : List Nat),
      index.nodes[node]? = some held → held.neighbors[layer]? = some list →
        ∀ next ∈ list, next ≠ node ∧
          ∃ other : HnswNode, index.nodes[next]? = some other ∧ layer ≤ other.topLayer := by
    intro node held layer list found stored next member
    rw [← linked_of_get found stored] at member
    have apart : next ≠ node := by
      intro same
      rw [same] at member
      exact wellFormed.tidy.noSelf layer node member
    obtain ⟨other, there, long⟩ := wellFormed.traversable.edges layer node next member
    have length := lists other (List.mem_of_getElem? there)
    exact ⟨apart, other, there, by omega⟩
  have nodup : ∀ node ∈ index.nodes, ∀ list ∈ node.neighbors, list.Nodup := by
    intro held member list stored
    obtain ⟨node, found⟩ := List.getElem?_of_mem member
    obtain ⟨layer, inside⟩ := List.getElem?_of_mem stored
    rw [← linked_of_get found inside]
    exact wellFormed.tidy.nodup layer node
  have degree : ∀ node ∈ index.nodes, ∀ layer list, node.neighbors[layer]? = some list →
      list.length ≤ if layer = 0 then 2 * index.maxNeighborsUpper.toNat
        else index.maxNeighborsUpper.toNat := by
    intro held member layer list stored
    obtain ⟨node, found⟩ := List.getElem?_of_mem member
    have bound := wellFormed.tidy.degree layer node
    rw [linked_of_get found stored, maxNeighborsForLayer, wellFormed.layer0] at bound
    -- The limit of layer 0 is computed in 32 bits, where `2 * m` can only come out smaller.
    have wrapped : (index.maxNeighborsUpper * 2).toNat ≤ 2 * index.maxNeighborsUpper.toNat := by
      have small := Nat.mod_le (index.maxNeighborsUpper.toNat * 2) (2 ^ 32)
      rw [UInt32.toNat_mul]
      change index.maxNeighborsUpper.toNat * 2 % 2 ^ 32 ≤ _
      omega
    by_cases zero : layer = 0
    · rw [if_pos zero] at bound ⊢
      exact bound.trans wrapped
    · rw [if_neg zero] at bound ⊢
      exact bound
  have bijection : ∀ node < index.nodes.length, ∃! id, index.idToInternal.find? id = some node := by
    intro node less
    have found := List.getElem?_eq_getElem less
    apply ExistsUnique.intro index.nodes[node].id
    · exact (wellFormed.directory _ node).mpr ⟨_, found, rfl⟩
    · intro id known
      obtain ⟨held, there, named⟩ := (wellFormed.directory id node).mp known
      rw [found, Option.some.injEq] at there
      rw [← named, there]
  exact ⟨lists, edges, nodup, degree, wellFormed.directory, bijection, wellFormed.liveCount,
    wellFormed.top⟩

/-- Every index reached is sound, and neither `add` nor `search` accesses a list
that does not exist. -/
theorem reached_sound (reached : Reached host dimensionality metric params index) :
    index.Sound (new dimensionality metric params).maxNeighborsUpper.toNat ∧
      (∀ id vec, ∃ result, index.add host id vec = .ok result) ∧
      ∀ q k queryParams, ∃ candidates, index.search host q k queryParams = .ok candidates := by
  obtain ⟨wellFormed, configured⟩ := reached.wellFormed
  have sound := wellFormed.sound
  rw [configured.upper] at sound
  have added : ∀ id vec, ∃ result, index.add host id vec = .ok result := by
    intro id vec
    obtain ⟨status, after, result, _⟩ := add_wellFormed host wellFormed id vec
    exact ⟨(status, after), result⟩
  exact ⟨sound, added, fun q k queryParams =>
    search_ok host q k queryParams wellFormed.traversable⟩

end Reached

section Changes

variable {D : Type} [FloatOrder D]

inductive Change where
  | add (id : RecordId) (vec : List F32)
  | remove (id : RecordId)
  | reload
  deriving DecidableEq

def liveVector (index : HnswIndex) (id : RecordId) : Option (List F32) :=
  (index.nodes.find? (fun node => !node.deleted && node.id = id)).map HnswNode.vector

variable (host : Host D) (dimensionality : UInt32) (metric : DistanceMetric)

/-- A step of a history, where it comes through. An index is reloaded from its own
region, with the vectors of its live nodes. -/
def change (index : HnswIndex) : Change → Option HnswIndex
  | .add id vec =>
      match index.add host id vec with
      | .ok (_, after) => if after.nodes.length < 2 ^ 31 then some after else none
      | .error _ => none
  | .remove id =>
      match index.remove id with
      | .ok (_, after) => some after
      | .error _ => none
  | .reload =>
      if index.serialize.length < word ∧ ∀ node ∈ index.nodes, node.id.length < 2 ^ 32
      then deserialize dimensionality metric index.serialize index.liveVector else none

def changed (index : HnswIndex) : List Change → Option HnswIndex
  | [] => some index
  | step :: rest => (index.change host dimensionality metric step).bind (fun after =>
      after.changed rest)

variable {host dimensionality metric} {params : IndexParams} {index after : HnswIndex}

theorem Reached.change (reached : Reached host dimensionality metric params index) {step : Change}
    (done : index.change host dimensionality metric step = some after) :
    Reached host dimensionality metric params after := by
  cases step with
  | add id vec =>
      simp only [HnswIndex.change] at done
      split at done
      · next added =>
          split at done
          · next small =>
              cases done
              exact reached.add id vec added small
          · cases done
      · cases done
  | remove id =>
      simp only [HnswIndex.change] at done
      split at done
      · next removed =>
          cases done
          exact reached.remove id removed
      · cases done
  | reload =>
      simp only [HnswIndex.change] at done
      split at done
      · next kept =>
          exact reached.reload _ kept.1 (Or.inl (fun node member _ => kept.2 node member)) done
      · cases done

theorem Reached.changed (reached : Reached host dimensionality metric params index)
    {steps : List Change} (done : index.changed host dimensionality metric steps = some after) :
    Reached host dimensionality metric params after := by
  induction steps generalizing index with
  | nil =>
      cases done
      exact reached
  | cons step rest ih =>
      rcases Option.bind_eq_some_iff.mp done with ⟨next, first, later⟩
      exact ih (reached.change first) later

theorem exists_of_changed (params : IndexParams) (steps : List Change) {holds : HnswIndex → Bool}
    (told : ((new dimensionality metric params).changed host dimensionality metric steps).any
      holds = true) :
    ∃ index, Reached host dimensionality metric params index ∧ holds index = true := by
  rcases (Option.any_eq_true _ _).mp told with ⟨index, done, facts⟩
  exact ⟨index, Reached.new.changed done, facts⟩

end Changes

/-- Six records on two layers, of which the third is gone, read back from their region; one
more, and the first replaced. -/
def reloadedChanges : List Change :=
  [.add [1] [0], .add [2] [40], .add [3] [10], .add [4] [30], .add [5] [22], .add [6] [5],
    .remove [3], .reload, .add [7] [17], .remove [1], .add [1] [33]]

theorem reached_sound_of_reload :
    ∃ index : HnswIndex, index.nodes.length = 6 ∧ index.liveCount = 6 ∧ index.maxLevel = 1 ∧
      index.linked 0 0 = [1, 4] ∧ index.linked 1 1 = [2] ∧
      index.Sound (new 1 .euclidean { m := 2 }).maxNeighborsUpper.toNat ∧
      (∀ id vec, ∃ result, index.add (ExactLine.host [0, 1, 0, 1]) id vec = .ok result) ∧
      ∀ q k queryParams, ∃ candidates,
        index.search (ExactLine.host [0, 1, 0, 1]) q k queryParams = .ok candidates := by
  have reaches : ∃ index, Reached (ExactLine.host [0, 1, 0, 1]) 1 .euclidean { m := 2 } index ∧
      decide (index.nodes.length = 6 ∧ index.liveCount = 6 ∧ index.maxLevel = 1 ∧
        index.linked 0 0 = [1, 4] ∧ index.linked 1 1 = [2]) = true :=
    exists_of_changed { m := 2 } reloadedChanges (by decide +kernel)
  rcases reaches with ⟨index, reached, told⟩
  rcases of_decide_eq_true told with ⟨nodes, live, level, bottom, upper⟩
  exact ⟨index, nodes, live, level, bottom, upper, reached_sound reached⟩

end VectorVault.HnswIndex
