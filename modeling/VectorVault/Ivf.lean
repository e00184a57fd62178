import VectorVault.Hnsw
import VectorVault.SnapshotFormat

/-! The inverted-file index: tombstoned entries and a lazily built partitioning.

A search refreshes the partitioning when a mutation made it stale, so it returns
the index along with its candidates. -/

namespace VectorVault

open FloatOrder Snapshot

structure IvfEntry where
  id : RecordId
  vector : List F32
  deleted : Bool
  deriving DecidableEq

structure IvfIndex where
  dimensionality : UInt32
  metric : DistanceMetric
  requestedNlist : UInt32
  seed : UInt64
  entries : List IvfEntry
  idToIndex : OrderedMap RecordId Nat
  liveCount : Nat
  dirty : Bool
  centroids : List (List F32)
  invertedLists : List (List Nat)

namespace IvfIndex

def maxKMeansIterations : Nat := 12

def new (dimensionality : UInt32) (metric : DistanceMetric) (params : IndexParams) : IvfIndex :=
  { dimensionality := dimensionality
    metric := metric
    requestedNlist := params.nlist
    seed := params.seed
    entries := []
    idToIndex := OrderedMap.empty
    liveCount := 0
    dirty := true
    centroids := []
    invertedLists := [] }

/-- An id already known gets its vector replaced, and is live again. -/
def revive (index : IvfIndex) (slot : Nat) (held : IvfEntry) (vec : List F32) : IvfIndex :=
  { index with
    entries := index.entries.set slot { held with vector := vec, deleted := false }
    liveCount := if held.deleted then index.liveCount + 1 else index.liveCount
    dirty := true }

def append (index : IvfIndex) (id : RecordId) (vec : List F32) : IvfIndex :=
  { index with
    entries := index.entries ++ [⟨id, vec, false⟩]
    idToIndex := index.idToIndex.emplace id index.entries.length
    liveCount := index.liveCount + 1
    dirty := true }

def tombstone (index : IvfIndex) (slot : Nat) (held : IvfEntry) : IvfIndex :=
  { index with
    entries := index.entries.set slot { held with deleted := true }
    liveCount := index.liveCount - 1
    dirty := true }

def add (index : IvfIndex) (id : RecordId) (vec : List F32) : Run (Status × IvfIndex) :=
  match HnswIndex.rejectAdd index.dimensionality id vec with
  | some error => return (.error error, index)
  | none =>
      match index.idToIndex.find? id with
      | some slot => do
          let held ← access index.entries slot
          return (.ok (), index.revive slot held vec)
      | none => return (.ok (), index.append id vec)

def remove (index : IvfIndex) (id : RecordId) : Run (Status × IvfIndex) :=
  match index.idToIndex.find? id with
  | none => return (.error (HnswIndex.noRecord id), index)
  | some slot => do
      let held ← access index.entries slot
      if held.deleted then return (.error (HnswIndex.noLiveRecord id), index)
      else return (.ok (), index.tombstone slot held)

section Partitions

variable {D : Type} [FloatOrder D] (host : Host D)

/-- The first of the nearest centroids, 0 where none is nearer than `+infinity`. -/
def nearestCell (vec : List F32) : List (List F32) → Nat → D × Nat → Nat
  | [], _, best => best.2
  | centroid :: rest, c, best =>
      let d := host.squaredL2 vec centroid
      nearestCell vec rest (c + 1) (if lt d best.1 then (d, c) else best)

def assign (centroids : List (List F32)) (vectors : List (List F32)) : List Nat :=
  vectors.map (fun vec => nearestCell host vec centroids 0 (infinity, 0))

def members (vectors : List (List F32)) (assignment : List Nat) (cell : Nat) : List (List F32) :=
  (vectors.zip assignment).filterMap (fun pair => if pair.2 = cell then some pair.1 else none)

/-- Each centroid moves to the mean of its members; an empty cell's stays. -/
def recompute (centroids : List (List F32)) (vectors : List (List F32)) (assignment : List Nat) :
    List (List F32) :=
  centroids.mapIdx (fun cell centroid =>
    if members vectors assignment cell = [] then centroid
    else host.mean (members vectors assignment cell))

/-- Lloyd's iterations; from the second one on an unchanged assignment ends them. -/
def refine (vectors : List (List F32)) :
    Nat → Bool → List Nat → List (List F32) → List Nat × List (List F32)
  | 0, _, assignment, centroids => (assignment, centroids)
  | rounds + 1, first, assignment, centroids =>
      let assigned := assign host centroids vectors
      let moved := recompute host centroids vectors assigned
      if assigned = assignment ∧ first = false then (assigned, moved)
      else refine vectors rounds false assigned moved

def liveSlots (index : IvfIndex) : List Nat :=
  (index.entries.zipIdx.filter (fun entry => !entry.1.deleted)).map Prod.snd

/-- The requested number of cells, or the root of the number of points, within
what the points allow. -/
def cellCount (index : IvfIndex) (live : Nat) : Nat :=
  let wanted :=
    if index.requestedNlist = 0 then (if Nat.sqrt live < 1 then 1 else Nat.sqrt live)
    else index.requestedNlist.toNat
  let clamped := if wanted > live then live else wanted
  if clamped < 1 then 1 else clamped

def shuffleSlots (index : IvfIndex) (live : List Nat) : Run (List Nat) :=
  (host.shuffled index.seed live.length).mapM (access live)

def vectorsOf (index : IvfIndex) (slots : List Nat) : Run (List (List F32)) :=
  slots.mapM (fun slot => do
    let entry ← access index.entries slot
    return entry.vector)

def ensurePartitionsBuilt (index : IvfIndex) : Run IvfIndex :=
  if index.dirty = false then return index
  else
    let live := index.liveSlots
    if live = [] then
      return { index with centroids := [], invertedLists := [], dirty := false }
    else do
      let k := index.cellCount live.length
      let shuffled ← index.shuffleSlots host live
      let initial ← index.vectorsOf (shuffled.take k)
      let vectors ← index.vectorsOf live
      let (assignment, centroids) :=
        refine host vectors maxKMeansIterations true (List.replicate live.length 0) initial
      let lists := (List.range k).map (fun cell =>
        (live.zip assignment).filterMap (fun pair => if pair.2 = cell then some pair.1 else none))
      return { index with centroids := centroids, invertedLists := lists, dirty := false }

def scanCell (index : IvfIndex) (q : List F32) : List Nat → Run (List (Candidate D))
  | [] => return []
  | slot :: rest => do
      let entry ← access index.entries slot
      let out ← index.scanCell q rest
      return if entry.deleted then out
        else ⟨entry.id, host.distanceOr index.metric q entry.vector⟩ :: out

def scanCells (index : IvfIndex) (q : List F32) : List (D × Nat) → Run (List (Candidate D))
  | [] => return []
  | probe :: rest => do
      let slots ← access index.invertedLists probe.2
      let found ← index.scanCell host q slots
      let out ← index.scanCells q rest
      return found ++ out

def probeCount (nlist : Nat) (params : QueryParams) : Nat :=
  let wanted := if params.nprobe < 1 then 1 else params.nprobe.toNat
  if wanted > nlist then nlist else wanted

def search (index : IvfIndex) (q : List F32) (k : UInt32) (params : QueryParams) :
    Run (List (Candidate D) × IvfIndex) :=
  if k = 0 ∨ index.liveCount = 0 then return ([], index)
  else do
    let built ← index.ensurePartitionsBuilt host
    if built.centroids = [] then return ([], built)
    else
      let cells := built.centroids.mapIdx (fun c centroid => (host.squaredL2 q centroid, c))
      let probed := (sortBy pairLt cells).take (probeCount built.centroids.length params)
      let out ← built.scanCells host q probed
      return ((sortBy HnswIndex.candidateLt out).take k.toNat, built)

end Partitions

/-- The construction parameters alone; the partitioning follows from the records. -/
def serialize (index : IvfIndex) : Bytes :=
  putU32 index.requestedNlist ++ putU64 index.seed

end IvfIndex

end VectorVault
