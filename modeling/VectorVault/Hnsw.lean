import VectorVault.Host
import VectorVault.Library.BestFirst
import VectorVault.Library.GreedyDescent
import VectorVault.Library.DiverseSelection

/-! The HNSW index, with every container access checked.

Node numbers are naturals; the code keeps them in 32 bits. The two loops whose
exit is not a counter run on fuel and report `Fault.diverged` without it. -/

namespace VectorVault

open FloatOrder BestFirst GreedyDescent

structure HnswNode where
  id : RecordId
  vector : List F32
  topLayer : Nat
  deleted : Bool
  neighbors : List (List Nat)
  deriving DecidableEq

structure HnswIndex where
  dimensionality : UInt32
  metric : DistanceMetric
  maxNeighborsUpper : UInt32
  maxNeighborsLayer0 : UInt32
  efConstruction : UInt32
  rngSeed : UInt64
  nodes : List HnswNode
  idToInternal : OrderedMap RecordId Nat
  entryPoint : Int
  maxLevel : Int
  liveCount : Nat
  drawn : Nat

namespace HnswIndex

def new (dimensionality : UInt32) (metric : DistanceMetric) (params : IndexParams) : HnswIndex :=
  let upper := if params.m < 2 then 2 else params.m
  { dimensionality := dimensionality
    metric := metric
    maxNeighborsUpper := upper
    maxNeighborsLayer0 := upper * 2
    efConstruction := if params.efConstruction < 1 then 1 else params.efConstruction
    rngSeed := params.seed
    nodes := []
    idToInternal := OrderedMap.empty
    entryPoint := -1
    maxLevel := -1
    liveCount := 0
    drawn := 0 }

def maxNeighborsForLayer (index : HnswIndex) (layer : Nat) : Nat :=
  if layer = 0 then index.maxNeighborsLayer0.toNat else index.maxNeighborsUpper.toNat

def adjacency (index : HnswIndex) (node layer : Nat) : Run (List Nat) := do
  let held ← access index.nodes node
  access held.neighbors layer

/-- `nodes_[node].neighbors[layer] = list`, where that list exists. -/
def setAdjacency (index : HnswIndex) (node layer : Nat) (list : List Nat) : HnswIndex :=
  { index with
    nodes := index.nodes.modify node
      (fun held => { held with neighbors := held.neighbors.set layer list }) }

section Traversal

variable {D : Type} [FloatOrder D] (host : Host D)

def distanceTo (index : HnswIndex) (q : List F32) (node : Nat) : Run D := do
  let held ← access index.nodes node
  return host.distanceOr index.metric q held.vector

def nodeDistance (index : HnswIndex) (a b : Nat) : Run D := do
  let held ← access index.nodes a
  index.distanceTo host held.vector b

/-- Whether the base is nearer to `e` than every neighbour selected before. -/
def farFromSelected (index : HnswIndex) (cand : D × Nat) : List Nat → Run Bool
  | [] => return true
  | other :: rest => do
      let distance ← index.nodeDistance host cand.2 other
      if le distance cand.1 then return false
      index.farFromSelected cand rest

def selectFrom (index : HnswIndex) (m : Nat) : List (D × Nat) → List Nat → Run (List Nat)
  | [], selected => return selected
  | cand :: rest, selected => do
      if selected.length ≥ m then return selected
      let keep ← index.farFromSelected host cand selected
      index.selectFrom m rest (if keep then selected ++ [cand.2] else selected)

def selectNeighborsHeuristic (index : HnswIndex) (candidates : List (D × Nat)) (m : Nat) :
    Run (List Nat) :=
  index.selectFrom host m (sortBy keyedLt candidates) []

/-- One pass over a neighbour list, moving to each node that is closer. -/
def descendScan (index : HnswIndex) (q : List F32) :
    List Nat → Position D Nat → Run (Position D Nat)
  | [], position => return position
  | neighbor :: rest, position => do
      let d ← index.distanceTo host q neighbor
      index.descendScan q rest
        (if lt d position.distance then ⟨neighbor, d, true⟩ else position)

def descendLoop (index : HnswIndex) (q : List F32) (layer : Nat) : Nat → Nat → D → Run Nat
  | 0, _, _ => .error .diverged
  | fuel + 1, current, currentDist => do
      let neighbors ← index.adjacency current layer
      let position ← index.descendScan host q neighbors ⟨current, currentDist, false⟩
      if position.improved then index.descendLoop q layer fuel position.current position.distance
      else return position.current

def greedyDescend (index : HnswIndex) (q : List F32) (entry layer : Nat) : Run Nat := do
  let currentDist ← index.distanceTo host q entry
  index.descendLoop host q layer (index.nodes.length + 1) entry currentDist

/-- The descents on the layers `floor + steps` down to `floor + 1`. -/
def descendLayers (index : HnswIndex) (q : List F32) (floor : Nat) : Nat → Nat → Run Nat
  | 0, current => return current
  | steps + 1, current => do
      let next ← index.greedyDescend host q current (floor + (steps + 1))
      index.descendLayers q floor steps next

/-- The entry points as first candidates, results and visited nodes. -/
def seedFrontier (index : HnswIndex) (q : List F32) :
    List Nat → Frontier D Nat → Run (Frontier D Nat)
  | [], frontier => return frontier
  | ep :: rest, frontier => do
      let d ← index.distanceTo host q ep
      index.seedFrontier q rest
        { candidates := pushNear (d, ep) frontier.candidates
          result := pushFar (d, ep) frontier.result
          visited := if ep ∈ frontier.visited then frontier.visited else ep :: frontier.visited }

def visitNeighbors (index : HnswIndex) (q : List F32) (ef : Nat) :
    List Nat → Frontier D Nat → Run (Frontier D Nat)
  | [], frontier => return frontier
  | neighbor :: rest, frontier => do
      if neighbor ∈ frontier.visited then index.visitNeighbors q ef rest frontier
      else
        let d ← index.distanceTo host q neighbor
        index.visitNeighbors q ef rest
          (if accepts ef frontier.result d then
            { candidates := pushNear (d, neighbor) frontier.candidates
              result := keep ef (d, neighbor) frontier.result
              visited := neighbor :: frontier.visited }
          else { frontier with visited := neighbor :: frontier.visited })

def exploreLoop (index : HnswIndex) (q : List F32) (ef layer : Nat) :
    Nat → Frontier D Nat → Run (Frontier D Nat)
  | 0, _ => .error .diverged
  | fuel + 1, frontier =>
      match frontier.candidates with
      | [] => return frontier
      | nearest :: rest =>
          if settled ef frontier.result nearest then return frontier
          else do
            let neighbors ← index.adjacency nearest.2 layer
            let next ← index.visitNeighbors host q ef neighbors
              { frontier with candidates := rest }
            index.exploreLoop q ef layer fuel next

def searchLayer (index : HnswIndex) (q : List F32) (entryPoints : List Nat) (ef layer : Nat) :
    Run (List (D × Nat)) := do
  let seeded ← index.seedFrontier host q entryPoints ⟨[], [], []⟩
  let trimmed := { seeded with result := seeded.result.drop (seeded.result.length - ef) }
  let final ← index.exploreLoop host q ef layer
    (index.nodes.length + entryPoints.length + 1) trimmed
  return final.result.reverse

end Traversal

section Update

variable {D : Type} [FloatOrder D] (host : Host D)

/-- A neighbour list within its limit: one that overflows goes through the
heuristic again, with the list's owner as the base. -/
def fitList (index : HnswIndex) (owner limit : Nat) (list : List Nat) : Run (List Nat) :=
  if list.length > limit then do
    let candidates ← list.mapM (fun nb => do
      let distance ← index.nodeDistance host owner nb
      return (distance, nb))
    index.selectNeighborsHeuristic host candidates limit
  else return list

def link (nodeId layer : Nat) (index : HnswIndex) (other : Nat) : Run HnswIndex := do
  if other = nodeId then return index
  let own ← index.adjacency nodeId layer
  let pushed := index.setAdjacency nodeId layer (own ++ [other])
  let otherList ← pushed.adjacency other layer
  let fitted ← pushed.fitList host other (index.maxNeighborsForLayer layer) (otherList ++ [nodeId])
  return pushed.setAdjacency other layer fitted

def connectNode (index : HnswIndex) (nodeId : Nat) (candidates : List (D × Nat)) (layer : Nat) :
    Run HnswIndex := do
  let selected ← index.selectNeighborsHeuristic host candidates (index.maxNeighborsForLayer layer)
  let _ ← index.adjacency nodeId layer
  selected.foldlM (link host nodeId layer) index

/-- Explore, select and connect on the layers `layers - 1` down to 0. -/
def connectLayers (q : List F32) (nodeId : Nat) : Nat → HnswIndex → Nat → Run HnswIndex
  | 0, index, _ => return index
  | layer + 1, index, current => do
      let found ← index.searchLayer host q [current] index.efConstruction.toNat layer
      let connected ← index.connectNode host nodeId found layer
      connectLayers q nodeId layer connected
        (match found with
        | nearest :: _ => nearest.2
        | [] => current)

/-- An id already known gets its vector replaced, and is live again. -/
def revive (index : HnswIndex) (node : Nat) (held : HnswNode) (vec : List F32) : HnswIndex :=
  { index with
    nodes := index.nodes.set node { held with vector := vec, deleted := false }
    liveCount := if held.deleted then index.liveCount + 1 else index.liveCount }

def tombstone (index : HnswIndex) (node : Nat) (held : HnswNode) : HnswIndex :=
  { index with
    nodes := index.nodes.set node { held with deleted := true }
    liveCount := index.liveCount - 1 }

def appendNode (index : HnswIndex) (id : RecordId) (vec : List F32) (level : Nat) : HnswIndex :=
  { index with
    nodes := index.nodes ++ [⟨id, vec, level, false, List.replicate (level + 1) []⟩]
    idToInternal := index.idToInternal.emplace id index.nodes.length
    liveCount := index.liveCount + 1
    drawn := index.drawn + 1 }

def insertNode (index : HnswIndex) (id : RecordId) (vec : List F32) (level : Nat) :
    Run HnswIndex :=
  let nodeId := index.nodes.length
  let appended := index.appendNode id vec level
  if appended.entryPoint < 0 then
    return { appended with entryPoint := nodeId, maxLevel := level }
  else do
    let current ← appended.descendLayers host vec level (appended.maxLevel - level).toNat
      appended.entryPoint.toNat
    let connected ← connectLayers host vec nodeId (min (level : Int) appended.maxLevel + 1).toNat
      appended current
    if (level : Int) > connected.maxLevel then
      return { connected with entryPoint := nodeId, maxLevel := level }
    else return connected

def rejectAdd (dimensionality : UInt32) (id : RecordId) (vec : List F32) : Option Error :=
  if id = [] then
    some ⟨.invalidIdentifier, text "index add requires a non-empty identifier"⟩
  else if vec.length ≠ dimensionality.toNat then
    some ⟨.dimensionMismatch,
      text "index add expected a vector of dimensionality " ++ decimal dimensionality.toNat ++
        text " but got " ++ decimal vec.length⟩
  else none

def add (index : HnswIndex) (id : RecordId) (vec : List F32) : Run (Status × HnswIndex) :=
  match rejectAdd index.dimensionality id vec with
  | some error => return (.error error, index)
  | none =>
      match index.idToInternal.find? id with
      | some node => do
          let held ← access index.nodes node
          return (.ok (), index.revive node held vec)
      | none => do
          let inserted ← index.insertNode host id vec
            (host.randomTopLayer index.rngSeed index.maxNeighborsUpper index.drawn)
          return (.ok (), inserted)

end Update

def noRecord (id : RecordId) : Error :=
  ⟨.notFound, text "index has no record with id '" ++ id ++ text "'"⟩

def noLiveRecord (id : RecordId) : Error :=
  ⟨.notFound, text "index has no live record with id '" ++ id ++ text "'"⟩

def remove (index : HnswIndex) (id : RecordId) : Run (Status × HnswIndex) :=
  match index.idToInternal.find? id with
  | none => return (.error (noRecord id), index)
  | some node => do
      let held ← access index.nodes node
      if held.deleted then return (.error (noLiveRecord id), index)
      else return (.ok (), index.tombstone node held)

section Search

variable {D : Type} [FloatOrder D] (host : Host D)

def liveCandidates (index : HnswIndex) : List (D × Nat) → Run (List (Candidate D))
  | [] => return []
  | item :: rest => do
      let node ← access index.nodes item.2
      let out ← index.liveCandidates rest
      return if node.deleted then out else ⟨node.id, item.1⟩ :: out

def candidateLt (first second : Candidate D) : Bool :=
  keyedLt (first.distance, first.id) (second.distance, second.id)

def breadth (k : UInt32) (params : QueryParams) : Nat :=
  max (if params.efSearch < 1 then 1 else params.efSearch.toNat) k.toNat

def search (index : HnswIndex) (q : List F32) (k : UInt32) (params : QueryParams) :
    Run (List (Candidate D)) :=
  if index.entryPoint < 0 ∨ k = 0 ∨ index.liveCount = 0 then return []
  else do
    let current ← index.descendLayers host q 0 index.maxLevel.toNat index.entryPoint.toNat
    let found ← index.searchLayer host q [current] (breadth k params) 0
    let out ← index.liveCandidates found
    return (sortBy candidateLt out).take k.toNat

end Search

end HnswIndex

end VectorVault
