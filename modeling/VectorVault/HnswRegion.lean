import VectorVault.Hnsw
import VectorVault.SnapshotFormat

/-! The index region of an HNSW graph: serialization and its reading back.

`HnswRegion` lists the fields of the region. `serialize` writes the canonical
form of an index; `deserialize` reads any bytes and gives up at the first
inconsistency. -/

namespace VectorVault

open Snapshot FloatOrder

structure StoredNode where
  id : RecordId
  topLayer : UInt32
  layers : List (List UInt32)
  deriving DecidableEq

@[ext]
structure HnswRegion where
  m : UInt32
  efConstruction : UInt32
  seed : UInt64
  maxLevel : UInt32
  entry : UInt32
  nodes : List StoredNode
  deriving DecidableEq

namespace HnswRegion

def putLayer (neighbors : List UInt32) : Bytes :=
  putU32 (UInt32.ofNat neighbors.length) ++ neighbors.flatMap putU32

def putNode (node : StoredNode) : Bytes :=
  putString node.id ++ putU32 node.topLayer ++ node.layers.flatMap putLayer

def put (region : HnswRegion) : Bytes :=
  putU32 region.m ++ putU32 region.efConstruction ++ putU64 region.seed ++
    putU32 (UInt32.ofNat region.nodes.length) ++ putU32 region.maxLevel ++ putU32 region.entry ++
    region.nodes.flatMap putNode

end HnswRegion

namespace HnswIndex

def liveNodes (index : HnswIndex) : List (HnswNode × Nat) :=
  sortBy (fun first second => decide (first.1.id < second.1.id))
    (index.nodes.zipIdx.filter (fun entry => !entry.1.deleted))

def canonical (index : HnswIndex) (node : Nat) : Option Nat :=
  (index.liveNodes.map Prod.snd).idxOf? node

/-- The highest of the top layers and the number of the first that has it. -/
def electEntry : List Nat → Nat → Int × UInt32 → Int × UInt32
  | [], _, best => best
  | top :: rest, c, best =>
      electEntry rest (c + 1) (if (top : Int) > best.1 then (top, UInt32.ofNat c) else best)

/-- Consecutive duplicates removed, as `std::unique` does. -/
def unique (numbers : List Nat) : List Nat := numbers.destutter (· ≠ ·)

/-- A neighbour list in canonical numbers: sorted, without edges to dead nodes. -/
def remapped (index : HnswIndex) (node : HnswNode) (layer : Nat) : List Nat :=
  let kept :=
    if layer < node.neighbors.length
    then (node.neighbors.getD layer []).filterMap index.canonical
    else []
  unique (kept.insertionSort (· ≤ ·))

def storedNode (index : HnswIndex) (node : HnswNode) : StoredNode :=
  { id := node.id
    topLayer := UInt32.ofNat node.topLayer
    layers := (List.range (node.topLayer + 1)).map
      (fun layer => (index.remapped node layer).map UInt32.ofNat) }

def asU32 (value : Int) : UInt32 := UInt32.ofNat (value % 2 ^ 32).toNat

def canonicalForm (index : HnswIndex) : HnswRegion :=
  let elected := electEntry (index.liveNodes.map (fun entry => entry.1.topLayer)) 0
    (-1, 0xFFFFFFFF)
  { m := index.maxNeighborsUpper
    efConstruction := index.efConstruction
    seed := index.rngSeed
    maxLevel := asU32 elected.1
    entry := elected.2
    nodes := index.liveNodes.map (fun entry => index.storedNode entry.1) }

def serialize (index : HnswIndex) : Bytes := index.canonicalForm.put

def readNeighbors (count : UInt32) : Nat → ByteReader → Option (List Nat × ByteReader)
  | 0, reader => some ([], reader)
  | degree + 1, reader => do
      let (neighbor, reader) := reader.getU32
      if reader.ok = false ∨ neighbor ≥ count then none
      else
        let (rest, reader) ← readNeighbors count degree reader
        some (neighbor.toNat :: rest, reader)

def readLayers (count : UInt32) : Nat → ByteReader → Option (List (List Nat) × ByteReader)
  | 0, reader => some ([], reader)
  | layers + 1, reader => do
      let (degree, reader) := reader.getU32
      if reader.ok = false then none
      else
        let (neighbors, reader) ← readNeighbors count degree.toNat reader
        let (rest, reader) ← readLayers count layers reader
        some (neighbors :: rest, reader)

/-- One node; its vector is not in the region and comes from `vectorFor`. A top
layer that is negative as an `int` is refused. -/
def readNode (vectorFor : RecordId → Option (List F32)) (count : UInt32) (reader : ByteReader) :
    Option (HnswNode × ByteReader) := do
  let (id, reader) := reader.getString
  let (topLayer, reader) := reader.getU32
  if reader.ok = false ∨ topLayer.toNat ≥ 2 ^ 31 then none
  else
    let components ← vectorFor id
    let (neighbors, reader) ← readLayers count (topLayer.toNat + 1) reader
    some (⟨id, components, topLayer.toNat, false, neighbors⟩, reader)

def readNodes (vectorFor : RecordId → Option (List F32)) (count : UInt32) :
    Nat → Nat → HnswIndex → ByteReader → Option (HnswIndex × ByteReader)
  | 0, _, index, reader => some (index, reader)
  | remaining + 1, c, index, reader => do
      let (node, reader) ← readNode vectorFor count reader
      if index.idToInternal.contains node.id then none
      else
        readNodes vectorFor count remaining (c + 1)
          { index with
            idToInternal := index.idToInternal.emplace node.id c
            nodes := index.nodes ++ [node] }
          reader

def asInt (value : UInt32) : Int :=
  if value.toNat < 2 ^ 31 then value.toNat else (value.toNat : Int) - 2 ^ 32

def deserialize (dimensionality : UInt32) (metric : DistanceMetric) (data : Bytes)
    (vectorFor : RecordId → Option (List F32)) : Option HnswIndex := do
  let (m, reader) := (ByteReader.new data).getU32
  let (efConstruction, reader) := reader.getU32
  let (seed, reader) := reader.getU64
  let (count, reader) := reader.getU32
  let (storedMaxLevel, reader) := reader.getU32
  let (entryCanonical, reader) := reader.getU32
  if reader.ok = false then none
  else
    let params : IndexParams := { m := m, efConstruction := efConstruction, seed := seed }
    let (index, reader) ← readNodes vectorFor count count.toNat 0
      (new dimensionality metric params) reader
    if reader.ok = false ∨ reader.remaining ≠ 0 then none
    else
      let loaded := { index with
        liveCount := count.toNat
        maxLevel := if storedMaxLevel = 0xFFFFFFFF then -1 else asInt storedMaxLevel }
      if count = 0 then some { loaded with entryPoint := -1 }
      else if entryCanonical = 0xFFFFFFFF ∨ entryCanonical ≥ count then none
      else some { loaded with entryPoint := asInt entryCanonical }

end HnswIndex

end VectorVault
