import VectorVault.Persistence

/-! The engine: a registry of named collections over one allocator.

A handle names a registered collection. A `World` is an engine with the files
its snapshots go to and come from; its commands are the operations of the engine
and of its handles, and the changes other programs make to the files. -/

namespace VectorVault

open PersistenceManager

structure CollectionHandle where
  name : Bytes
  deriving DecidableEq, Repr

structure Engine where
  allocator : MemoryAllocator
  collections : OrderedMap Bytes Collection
  nextTag : Nat

namespace Engine

def new (capacityBytes : UInt64) (garbage : Nat → UInt8) : Engine :=
  { allocator := MemoryAllocator.new capacityBytes garbage
    collections := OrderedMap.empty
    nextTag := 1 }

def noCollection (name : Bytes) : Error :=
  ⟨.notFound, text "no collection named '" ++ name ++ text "' exists"⟩

def nameConflict (name : Bytes) : Error :=
  ⟨.nameConflict, text "a collection named '" ++ name ++ text "' already exists"⟩

def checkConfig (name : Bytes) (dimensionality : UInt32) (metric : UInt8) :
    Result CollectionConfig :=
  if name = [] ∨ name.length > 255 then
    .error ⟨.invalidName,
      text "collection name must be 1 to 255 characters (got " ++ decimal name.length ++ text ")"⟩
  else if dimensionality.toNat < 1 ∨ dimensionality.toNat > 65536 then
    .error ⟨.invalidDimensionality,
      text "dimensionality must be in [1, 65536] (got " ++ decimal dimensionality.toNat ++
        text ")"⟩
  else
    match DistanceMetric.ofByte? metric with
    | some metric => .ok ⟨name, dimensionality, metric⟩
    | none =>
        .error ⟨.invalidMetric,
          text "distance metric must be Euclidean, Cosine, or DotProduct (got " ++
            decimal metric.toNat ++ text ")"⟩

def createCollection (engine : Engine) (name : Bytes) (dimensionality : UInt32)
    (metric : UInt8) : Result CollectionHandle × Engine :=
  match checkConfig name dimensionality metric with
  | .error error => (.error error, engine)
  | .ok config =>
      if engine.collections.contains name then (.error (nameConflict name), engine)
      else
        (.ok ⟨name⟩,
          { engine with
            collections := engine.collections.emplace name (Collection.new config engine.nextTag)
            nextTag := engine.nextTag + 1 })

/-- `fault` is the answer of the injected deletion fault, `false` without one. -/
def deleteCollection (engine : Engine) (name : Bytes) (fault : Bool) : Status × Engine :=
  match engine.collections.find? name with
  | none => (.error (noCollection name), engine)
  | some collection =>
      if fault then
        (.error ⟨.deletionFailed,
          text "deletion of collection '" ++ name ++ text "' failed before completion"⟩, engine)
      else
        (.ok (),
          { engine with
            allocator := engine.allocator.releaseAll collection.tag
            collections := engine.collections.erase name })

def getCollection (engine : Engine) (name : Bytes) : Result Collection :=
  match engine.collections.find? name with
  | none => .error (noCollection name)
  | some collection => .ok collection

def saveCollection (engine : Engine) (name path temp : Bytes) (outcome : SaveOutcome) :
    Run (Status × Option FileContent) :=
  match engine.collections.find? name with
  | none => return (.error (noCollection name), none)
  | some collection => save engine.allocator collection path temp outcome

/-- The tag is taken before the file is looked at. -/
def loadCollection (engine : Engine) (path : Bytes) (file : SnapshotFile) :
    Run (Result CollectionHandle × Engine) := do
  let reserved := { engine with nextTag := engine.nextTag + 1 }
  let loaded ← load path engine.allocator file engine.nextTag
  match loaded with
  | .error error => return (.error error, reserved)
  | .ok collection =>
      if engine.collections.contains collection.config.name then
        return (.error (nameConflict collection.config.name),
          { reserved with allocator := engine.allocator.releaseAll engine.nextTag })
      else
        return (.ok ⟨collection.config.name⟩,
          { reserved with
            collections := engine.collections.emplace collection.config.name collection })

def onCollection (engine : Engine) (name : Bytes)
    (operation : MemoryAllocator → Collection → Run (Status × MemoryAllocator × Collection)) :
    Run (Status × Engine) :=
  match engine.collections.find? name with
  | none => return (.error (noCollection name), engine)
  | some collection => do
      let (status, allocator, after) ← operation engine.allocator collection
      return (status,
        { engine with
          allocator := allocator
          collections := engine.collections.insert name after })

end Engine

inductive Command where
  | createCollection (name : Bytes) (dimensionality : UInt32) (metric : UInt8)
  | deleteCollection (name : Bytes) (fault : Bool)
  | insert (name : Bytes) (id : RecordId) (vec : List F32) (metadata : Option Metadata)
  | insertBatch (name : Bytes) (records : List RecordInput)
  | remove (name : Bytes) (id : RecordId)
  | buildIndex (name : Bytes) (type : IndexType) (params : IndexParams)
  | query (name : Bytes) (q : List F32) (k : UInt32) (params : QueryParams)
  | saveCollection (name path temp : Bytes) (outcome : SaveOutcome)
  | loadCollection (path : Bytes)
  | putFile (path : Bytes) (file : SnapshotFile)

structure World where
  engine : Engine
  files : OrderedMap Bytes SnapshotFile

namespace World

def new (capacityBytes : UInt64) (garbage : Nat → UInt8) : World :=
  ⟨Engine.new capacityBytes garbage, OrderedMap.empty⟩

def fileAt (world : World) (path : Bytes) : SnapshotFile := (world.files.find? path).getD .missing

section Step

variable {D : Type} [FloatOrder D] (host : Host D)

/-- What a command does to a collection whose handle it goes through. -/
def onHandle (world : World) (name : Bytes)
    (operation : MemoryAllocator → Collection → Run (Status × MemoryAllocator × Collection)) :
    Run (Status × World) := do
  let (status, after) ← world.engine.onCollection name operation
  return (status, { world with engine := after })

def step (world : World) (command : Command) : Run (Status × World) :=
  match command with
  | .createCollection name dimensionality metric =>
      let (created, after) := world.engine.createCollection name dimensionality metric
      return (created.map (fun _ => ()), { world with engine := after })
  | .deleteCollection name fault =>
      let (status, after) := world.engine.deleteCollection name fault
      return (status, { world with engine := after })
  | .insert name id vec metadata =>
      world.onHandle name
        (fun allocator collection => collection.insert host allocator id vec metadata)
  | .insertBatch name records =>
      world.onHandle name (fun allocator collection => collection.insertBatch host allocator records)
  | .remove name id =>
      world.onHandle name (fun allocator collection => collection.remove allocator id)
  | .buildIndex name type params =>
      world.onHandle name (fun allocator collection => do
        let (status, after) ← collection.buildIndex host allocator type params
        return (status, allocator, after))
  | .query name q k params =>
      world.onHandle name (fun allocator collection => do
        let (answer, after) ← collection.query host allocator q k params
        return (answer.map (fun _ => ()), allocator, after))
  | .saveCollection name path temp outcome => do
      let (status, written) ← world.engine.saveCollection name path temp outcome
      match written with
      | none => return (status, world)
      | some content =>
          return (status, { world with files := world.files.insert path (.regular content) })
  | .loadCollection path => do
      let (loaded, after) ← world.engine.loadCollection path (world.fileAt path)
      return (loaded.map (fun _ => ()), { world with engine := after })
  | .putFile path file => return (.ok (), { world with files := world.files.insert path file })

def run : World → List Command → Run (List Status × World)
  | world, [] => return ([], world)
  | world, command :: rest => do
      let (status, after) ← world.step host command
      let (statuses, final) ← after.run rest
      return (status :: statuses, final)

def reached (world : World) (commands : List Command) (name : Bytes) :
    Option (List Status × World × Collection) :=
  match world.run host commands with
  | .ok (statuses, after) =>
      (after.engine.collections.find? name).map (fun collection => (statuses, after, collection))
  | .error _ => none

theorem exists_of_reached {host : Host D} {world : World} {commands : List Command} {name : Bytes}
    {holds : World → Collection → Bool}
    (told : (world.reached host commands name).any (fun final => holds final.2.1 final.2.2) = true) :
    ∃ statuses after collection, world.run host commands = .ok (statuses, after) ∧
      after.engine.collections.find? name = some collection ∧ holds after collection = true := by
  obtain ⟨⟨statuses, after, collection⟩, isFinal, facts⟩ := (Option.any_eq_true _ _).mp told
  unfold reached at isFinal
  split at isFinal
  · next done =>
      obtain ⟨other, found, same⟩ := Option.map_eq_some_iff.mp isFinal
      cases same
      exact ⟨statuses, after, collection, done, found, facts⟩
  · cases isFinal

end Step

end World

end VectorVault
