import VectorVault.Allocator
import VectorVault.Index

/-! A collection over the shared allocator.

The allocator is passed in and returned. A record's vector is read through its
block's pointer, from the arena or from the collection's mapping. -/

namespace VectorVault

open FloatOrder Snapshot

/-- `ignoredFailures` is a ghost counter of index updates that failed without
their status being looked at. -/
structure Collection where
  config : CollectionConfig
  tag : Nat
  records : OrderedMap RecordId RecordSlot
  recordCount : Nat
  index : Option Index
  indexType : IndexType
  mappedRegion : Bytes
  ignoredFailures : Nat

structure SnapshotRecord where
  id : RecordId
  vector : List F32
  metadata : Option Metadata

structure CollectionSnapshotData where
  config : CollectionConfig
  indexType : IndexType
  records : List SnapshotRecord
  indexBlob : Bytes

namespace Collection

def maxBatchSize : Nat := 10000

def new (config : CollectionConfig) (tag : Nat) : Collection :=
  { config := config
    tag := tag
    records := OrderedMap.empty
    recordCount := 0
    index := none
    indexType := .none
    mappedRegion := []
    ignoredFailures := 0 }

/-- The position of the first component that is not finite, the length when
every one is. -/
def firstNonFinite (vec : List F32) : Nat := vec.findIdx (fun component => !component.isFinite)

def vectorBytes (collection : Collection) : Nat := collection.config.dimensionality.toNat * 4

section Memory

def storeComponents (allocator : MemoryAllocator) (block : Block) (vec : List F32) :
    MemoryAllocator :=
  match block.data with
  | .arena offset => allocator.store offset (putVector vec)
  | _ => allocator

def readBlock (allocator : MemoryAllocator) (mapping : Bytes) (block : Block) (length : Nat) :
    Run Bytes :=
  match block.data with
  | .null => .error .outOfRange
  | .arena offset =>
      if offset + length ≤ allocator.capacityBytes then .ok (allocator.read offset length)
      else .error .outOfRange
  | .mapped offset =>
      if offset + length ≤ mapping.length then .ok ((mapping.drop offset).take length)
      else .error .outOfRange

def components (collection : Collection) (allocator : MemoryAllocator) (slot : RecordSlot) :
    Run (List F32) := do
  let bytes ← readBlock allocator collection.mappedRegion slot.vectorBlock collection.vectorBytes
  return getVector bytes

end Memory

section Update

variable {D : Type} [FloatOrder D] (host : Host D)

def failures : Status → Nat
  | .ok _ => 0
  | .error _ => 1

def indexAdd (collection : Collection) (id : RecordId) (vec : List F32) : Run Collection :=
  match collection.index with
  | none => return collection
  | some index => do
      let (status, after) ← index.add host id vec
      return { collection with
        index := some after
        ignoredFailures := collection.ignoredFailures + failures status }

def indexRemove (collection : Collection) (id : RecordId) : Run Collection :=
  match collection.index with
  | none => return collection
  | some index => do
      let (status, after) ← index.remove id
      return { collection with
        index := some after
        ignoredFailures := collection.ignoredFailures + failures status }

def rejectInsert (config : CollectionConfig) (id : RecordId) (vec : List F32) : Option Error :=
  if id = [] then some ⟨.invalidIdentifier, text "record identifier must be non-empty"⟩
  else if vec.length ≠ config.dimensionality.toNat then
    some ⟨.dimensionMismatch,
      text "vector has " ++ decimal vec.length ++
        text " components but the collection dimensionality is " ++
        decimal config.dimensionality.toNat⟩
  else if firstNonFinite vec ≠ vec.length then
    some ⟨.invalidValue,
      text "vector component at index " ++ decimal (firstNonFinite vec) ++
        text " is not a finite number"⟩
  else none

/-- The slot of a record set to a freshly stored block; the block it had is
released. -/
def commit (allocator : MemoryAllocator) (collection : Collection) (id : RecordId)
    (vec : List F32) (metadata : Option Metadata) (block : Block) :
    Run (MemoryAllocator × Collection) :=
  match collection.records.find? id with
  | some slot => do
      let indexed ← indexAdd host
        { collection with records := collection.records.insert id ⟨block, metadata⟩ } id vec
      return (allocator.release slot.vectorBlock, indexed)
  | none => do
      let indexed ← indexAdd host
        { collection with
          records := collection.records.emplace id ⟨block, metadata⟩
          recordCount := collection.recordCount + 1 } id vec
      return (allocator, indexed)

def insert (allocator : MemoryAllocator) (collection : Collection) (id : RecordId)
    (vec : List F32) (metadata : Option Metadata) :
    Run (Status × MemoryAllocator × Collection) :=
  match rejectInsert collection.config id vec with
  | some error => return (.error error, allocator, collection)
  | none =>
      match allocator.allocate collection.vectorBytes collection.tag with
      | .error error => return (.error error, allocator, collection)
      | .ok (block, allocated) => do
          let (released, committed) ← commit host (storeComponents allocated block vec) collection
            id vec metadata block
          return (.ok (), released, committed)

def rejectBatchRecord (config : CollectionConfig) (position : Nat) (record : RecordInput) :
    Option Error :=
  if record.id = [] then
    some ⟨.invalidIdentifier,
      text "record at batch index " ++ decimal position ++ text " has an empty identifier"⟩
  else if record.vector.length ≠ config.dimensionality.toNat then
    some ⟨.dimensionMismatch,
      text "record at batch index " ++ decimal position ++ text " has " ++
        decimal record.vector.length ++
        text " components but the collection dimensionality is " ++
        decimal config.dimensionality.toNat⟩
  else if firstNonFinite record.vector ≠ record.vector.length then
    some ⟨.invalidValue,
      text "record at batch index " ++ decimal position ++
        text " has a non-finite component at index " ++ decimal (firstNonFinite record.vector)⟩
  else none

def rejectRecords (config : CollectionConfig) : Nat → List RecordInput → Option Error
  | _, [] => none
  | position, record :: rest =>
      match rejectBatchRecord config position record with
      | some error => some error
      | none => rejectRecords config (position + 1) rest

def rejectBatch (config : CollectionConfig) (records : List RecordInput) : Option Error :=
  if records = [] ∨ records.length > maxBatchSize then
    some ⟨.invalidArgument,
      text "batch must contain 1 to 10000 records (got " ++ decimal records.length ++ text ")"⟩
  else rejectRecords config 0 records

/-- Allocates and stores a block for every record; the first failure releases
those already made. -/
def stage (bytes tag : Nat) :
    List RecordInput → List Block → MemoryAllocator → Result (List Block) × MemoryAllocator
  | [], staged, allocator => (.ok staged, allocator)
  | record :: rest, staged, allocator =>
      match allocator.allocate bytes tag with
      | .error error => (.error error, staged.foldl MemoryAllocator.release allocator)
      | .ok (block, allocated) =>
          stage bytes tag rest (staged ++ [block]) (storeComponents allocated block record.vector)

def commitAll : List (RecordInput × Block) → MemoryAllocator → Collection →
    Run (MemoryAllocator × Collection)
  | [], allocator, collection => return (allocator, collection)
  | (record, block) :: rest, allocator, collection => do
      let (released, committed) ← commit host allocator collection record.id record.vector
        record.metadata block
      commitAll rest released committed

def insertBatch (allocator : MemoryAllocator) (collection : Collection)
    (records : List RecordInput) : Run (Status × MemoryAllocator × Collection) :=
  match rejectBatch collection.config records with
  | some error => return (.error error, allocator, collection)
  | none =>
      match stage collection.vectorBytes collection.tag records [] allocator with
      | (.error error, rolledBack) => return (.error error, rolledBack, collection)
      | (.ok staged, stored) => do
          let (released, committed) ← commitAll host (records.zip staged) stored collection
          return (.ok (), released, committed)

def noSuchRecord (id : RecordId) : Error :=
  ⟨.notFound, text "no record with identifier '" ++ id ++ text "' exists"⟩

def get (allocator : MemoryAllocator) (collection : Collection) (id : RecordId) :
    Run (Result RecordView) :=
  match collection.records.find? id with
  | none => return .error (noSuchRecord id)
  | some slot => do
      let vector ← collection.components allocator slot
      return .ok ⟨vector, slot.metadata⟩

def count (collection : Collection) : Nat := collection.recordCount

def remove (allocator : MemoryAllocator) (collection : Collection) (id : RecordId) :
    Run (Status × MemoryAllocator × Collection) :=
  match collection.records.find? id with
  | none => return (.error (noSuchRecord id), allocator, collection)
  | some slot => do
      let indexed ← indexRemove
        { collection with
          records := collection.records.erase id
          recordCount := collection.recordCount - 1 } id
      return (.ok (), allocator.release slot.vectorBlock, indexed)

def rejectBuild (collection : Collection) (type : IndexType) (params : IndexParams) :
    Option Error :=
  match type with
  | .hnsw =>
      if params.m < 2 then
        some ⟨.invalidParameter,
          text "HNSW parameter 'm' must be an integer of at least 2 (got " ++
            decimal params.m.toNat ++ text ")"⟩
      else if params.efConstruction < 1 then
        some ⟨.invalidParameter,
          text "HNSW parameter 'ef_construction' must be an integer of at least 1 (got " ++
            decimal params.efConstruction.toNat ++ text ")"⟩
      else none
  | .ivf =>
      if params.nlist ≠ 0 ∧ params.nlist.toNat > collection.recordCount then
        some ⟨.invalidParameter,
          text "IVF parameter 'nlist' must be an integer in [1, " ++
            decimal collection.recordCount ++ text "] (got " ++ decimal params.nlist.toNat ++
            text ")"⟩
      else none
  | .none => some ⟨.invalidArgument, text "index type must be HNSW or IVF"⟩

def newIndex (config : CollectionConfig) (type : IndexType) (params : IndexParams) : Index :=
  match type with
  | .hnsw => .hnsw (HnswIndex.new config.dimensionality config.metric params)
  | _ => .ivf (IvfIndex.new config.dimensionality config.metric params)

def populate (allocator : MemoryAllocator) (collection : Collection) :
    List (RecordId × RecordSlot) → Index → Run (Status × Index)
  | [], index => return (.ok (), index)
  | (id, slot) :: rest, index => do
      let vector ← collection.components allocator slot
      let (added, next) ← index.add host id vector
      match added with
      | .error error => return (.error error, next)
      | .ok _ => populate allocator collection rest next

def buildIndex (allocator : MemoryAllocator) (collection : Collection) (type : IndexType)
    (params : IndexParams) : Run (Status × Collection) :=
  match collection.rejectBuild type params with
  | some error => return (.error error, collection)
  | none => do
      let (added, index) ← populate host allocator collection collection.records.entries
        (newIndex collection.config type params)
      match added with
      | .error error => return (.error error, collection)
      | .ok _ => return (.ok (), { collection with index := some index, indexType := type })

end Update

section Query

variable {D : Type} [FloatOrder D] (host : Host D)

def rejectQuery (config : CollectionConfig) (q : List F32) (k : UInt32) : Option Error :=
  if k < 1 then
    some ⟨.invalidArgument,
      text "k must be an integer of at least 1 (got " ++ decimal k.toNat ++ text ")"⟩
  else if q.length ≠ config.dimensionality.toNat then
    some ⟨.dimensionMismatch,
      text "query vector has " ++ decimal q.length ++
        text " components but the collection dimensionality is " ++
        decimal config.dimensionality.toNat⟩
  else if firstNonFinite q ≠ q.length then
    some ⟨.invalidValue,
      text "query vector component at index " ++ decimal (firstNonFinite q) ++
        text " is not a finite number"⟩
  else none

def exactDistance (allocator : MemoryAllocator) (collection : Collection) (q : List F32)
    (slot : RecordSlot) : Run D := do
  let vector ← collection.components allocator slot
  return host.distanceOr collection.config.metric q vector

/-- The candidates that are stored records, each once, by exact distance. -/
def rerank (allocator : MemoryAllocator) (collection : Collection) (q : List F32) :
    List (Candidate D) → List RecordId → Run (List (Neighbor D))
  | [], _ => return []
  | candidate :: rest, seen =>
      match collection.records.find? candidate.id with
      | none => rerank allocator collection q rest seen
      | some slot =>
          if candidate.id ∈ seen then rerank allocator collection q rest seen
          else do
            let distance ← exactDistance host allocator collection q slot
            let results ← rerank allocator collection q rest (candidate.id :: seen)
            return ⟨candidate.id, distance⟩ :: results

def scanAll (allocator : MemoryAllocator) (collection : Collection) (q : List F32) :
    List (RecordId × RecordSlot) → Run (List (Neighbor D))
  | [] => return []
  | (id, slot) :: rest => do
      let distance ← exactDistance host allocator collection q slot
      let results ← scanAll allocator collection q rest
      return ⟨id, distance⟩ :: results

def neighborLt (first second : Neighbor D) : Bool :=
  keyedLt (first.distance, first.id) (second.distance, second.id)

def nearest (k : UInt32) (results : List (Neighbor D)) : List (Neighbor D) :=
  (sortBy neighborLt results).take k.toNat

/-- The candidates of an index by exact distance, or a scan of every record when
they are fewer than can be returned. -/
def answer (allocator : MemoryAllocator) (collection : Collection) (q : List F32) (k : UInt32)
    (candidates : List (Candidate D)) : Run (List (Neighbor D)) := do
  let results ← rerank host allocator collection q candidates []
  if results.length < min k.toNat collection.recordCount then
    let all ← scanAll host allocator collection q collection.records.entries
    return nearest k all
  else return nearest k results

def queryWith (search : Index → List F32 → UInt32 → QueryParams → Run (List (Candidate D) × Index))
    (allocator : MemoryAllocator) (collection : Collection) (q : List F32) (k : UInt32)
    (params : QueryParams) : Run (Result (List (Neighbor D)) × Collection) :=
  match rejectQuery collection.config q k with
  | some error => return (.error error, collection)
  | none =>
      if collection.recordCount = 0 then return (.ok [], collection)
      else
        match collection.index with
        | some index =>
            if collection.indexType ≠ .none ∧ k.toNat < collection.recordCount then do
              let (candidates, after) ← search index q k params
              let results ← answer host allocator collection q k candidates
              return (.ok results, { collection with index := some after })
            else do
              let all ← scanAll host allocator collection q collection.records.entries
              return (.ok (nearest k all), collection)
        | none => do
            let all ← scanAll host allocator collection q collection.records.entries
            return (.ok (nearest k all), collection)

def query (allocator : MemoryAllocator) (collection : Collection) (q : List F32) (k : UInt32)
    (params : QueryParams) : Run (Result (List (Neighbor D)) × Collection) :=
  queryWith host (fun index => index.search host) allocator collection q k params

end Query

def snapshotRecords (allocator : MemoryAllocator) (collection : Collection) :
    List (RecordId × RecordSlot) → Run (List SnapshotRecord)
  | [] => return []
  | (id, slot) :: rest => do
      let vector ← collection.components allocator slot
      let records ← snapshotRecords allocator collection rest
      return ⟨id, vector, slot.metadata⟩ :: records

def snapshotData (allocator : MemoryAllocator) (collection : Collection) :
    Run CollectionSnapshotData := do
  let records ← snapshotRecords allocator collection collection.records.entries
  return {
    config := collection.config
    indexType := collection.indexType
    records := records
    indexBlob :=
      match collection.index with
      | some index => if collection.indexType ≠ .none then index.serialize else []
      | none => [] }

end Collection

end VectorVault
