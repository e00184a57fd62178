import VectorVault.PyConversions
import VectorVault.DurableEngine

/-! The Python binding: calls on an engine and on handles of its collections.

A call converts its arguments, makes one call of the core and converts what that
returns. A handle is a pointer to a collection that the engine owns; the tag of a
collection stands for its address. -/

namespace VectorVault.Python

open PersistenceManager (SaveOutcome)

section Arguments

def toLower (bytes : Bytes) : Bytes :=
  bytes.map (fun byte => if 65 ≤ byte ∧ byte ≤ 90 then byte + 32 else byte)

def parseMetric (metric : Bytes) : Except Raised DistanceMetric :=
  let m := toLower metric
  if m = text "euclidean" ∨ m = text "l2" then .ok .euclidean
  else if m = text "cosine" then .ok .cosine
  else if m = text "dot" ∨ m = text "dot_product" ∨ m = text "dotproduct" ∨ m = text "ip" then
    .ok .dotProduct
  else
    .error (raiseCore .invalidMetric (text "unknown distance metric '" ++ metric ++ text "'"))

def parseIndexType (type : Bytes) : Except Raised IndexType :=
  let t := toLower type
  if t = text "hnsw" then .ok .hnsw
  else if t = text "ivf" then .ok .ivf
  else if t = text "none" then .ok .none
  else .error (raiseCore .invalidArgument (text "unknown index type '" ++ type ++ text "'"))

def castInt (low high : Int) : PyObject → Except Raised Int
  | .bool value => return if value then 1 else 0
  | .int value => if low ≤ value ∧ value < high then return value else .error .castError
  | _ => .error .castError

def keyword (kwargs : List (String × PyObject)) (name : String) (bits default : Nat) :
    Except Raised Nat :=
  match kwargs.find? (fun given => given.1 = name) with
  | some given => do
      let value ← castInt 0 (2 ^ bits) given.2
      return value.toNat
  | none => return default

def toIndexParams (kwargs : List (String × PyObject)) : Except Raised IndexParams := do
  let defaults : IndexParams := {}
  let m ← keyword kwargs "m" 32 defaults.m.toNat
  let efConstruction ← keyword kwargs "ef_construction" 32 defaults.efConstruction.toNat
  let nlist ← keyword kwargs "nlist" 32 defaults.nlist.toNat
  let seed ← keyword kwargs "seed" 64 defaults.seed.toNat
  return ⟨UInt32.ofNat m, UInt32.ofNat efConstruction, UInt32.ofNat nlist, UInt64.ofNat seed⟩

def toQueryParams (kwargs : List (String × PyObject)) : Except Raised QueryParams := do
  let defaults : QueryParams := {}
  let efSearch ← keyword kwargs "ef_search" 32 defaults.efSearch.toNat
  let nprobe ← keyword kwargs "nprobe" 32 defaults.nprobe.toNat
  return ⟨UInt32.ofNat efSearch, UInt32.ofNat nprobe⟩

/-- `k`, with what exceeds 32 bits cut to the largest. -/
def toK (object : PyObject) : Except Raised UInt32 :=
  match object with
  | .bool _ | .int _ => do
      let k ← castInt (-2 ^ 63) (2 ^ 63) object
      if k < 1 then .error (raiseCore .invalidArgument (text "k must be an integer >= 1"))
      else return UInt32.ofNat (min k.toNat (2 ^ 32 - 1))
  | _ => .error (raiseCore .invalidArgument (text "k must be an integer"))

def iterated : PyObject → Option (List PyObject)
  | .dict entries => some (entries.map Prod.fst)
  | .iterator items => some items
  | object => sequenceItems object

def recordAt (index : Nat) (before after : String) : Raised :=
  .typeError (text before ++ decimal index ++ text after)

/-- The fields of a record: a sequence that is neither text nor a mapping. -/
def fieldsOf : PyObject → Option (List PyObject)
  | .list items => some items
  | .tuple items => some items
  | _ => none

def toRecord (index : Nat) (item : PyObject) : Except Raised RecordInput :=
  match fieldsOf item with
  | none => .error (recordAt index "record at index "
      " must be an (id, vector) or (id, vector, metadata) tuple")
  | some [id, vector] => toFields index id vector .none
  | some [id, vector, metadata] => toFields index id vector metadata
  | some _ => .error (recordAt index "record at index "
      " must have 2 or 3 elements (id, vector[, metadata])")
where
  toFields (index : Nat) (id vector metadata : PyObject) : Except Raised RecordInput :=
    match id with
    | .str id => do
        let vector ← toFloatVector vector
        let metadata ← toOptionalMetadata
          (recordAt index "metadata for record at index " " must be a dict or None") metadata
        return ⟨encode id, vector, metadata⟩
    | _ => .error (recordAt index "record id at index " " must be a string")

def toRecordsFrom : Nat → List PyObject → Except Raised (List RecordInput)
  | _, [] => return []
  | index, item :: rest => do
      let record ← toRecord index item
      let inputs ← toRecordsFrom (index + 1) rest
      return record :: inputs

def toRecords (records : PyObject) : Except Raised (List RecordInput) :=
  match iterated records with
  | some items => toRecordsFrom 0 items
  | none => .error (.typeError
      (text "records must be an iterable of (id, vector) or (id, vector, metadata) tuples"))

def insertArguments (vector metadata : PyObject) : Except Raised (List F32 × Option Metadata) := do
  let v ← toFloatVector vector
  let m ← toOptionalMetadata (.typeError (text "metadata must be a dict or None")) metadata
  return (v, m)

def buildArguments (type : PyText) (kwargs : List (String × PyObject)) :
    Except Raised (IndexType × IndexParams) := do
  let t ← parseIndexType type.cast
  let params ← toIndexParams kwargs
  return (t, params)

def queryArguments (vector k : PyObject) (kwargs : List (String × PyObject)) :
    Except Raised (List F32 × UInt32 × QueryParams) := do
  let v ← toFloatVector vector
  let k32 ← toK k
  let params ← toQueryParams kwargs
  return (v, k32, params)

end Arguments

/-- A call with its arguments. `temp` and `outcome` are how a save goes on the file
system. -/
inductive PyCall where
  | createCollection (name : PyText) (dim : UInt32) (metric : PyText)
  | getCollection (name : PyText)
  | listCollections
  | deleteCollection (name : PyText)
  | save (name path : PyText) (temp : Bytes) (outcome : SaveOutcome)
  | load (path : PyText)
  | insert (self : Nat) (id : PyText) (vector metadata : PyObject)
  | insertBatch (self : Nat) (records : PyObject)
  | get (self : Nat) (id : PyText)
  | delete (self : Nat) (id : PyText)
  | count (self : Nat)
  | indexType (self : Nat)
  | buildIndex (self : Nat) (type : PyText) (kwargs : List (String × PyObject))
  | query (self : Nat) (vector k : PyObject) (kwargs : List (String × PyObject))

def PyCall.self? : PyCall → Option Nat
  | .insert self _ _ _ => some self
  | .insertBatch self _ => some self
  | .get self _ => some self
  | .delete self _ => some self
  | .count self => some self
  | .indexType self => some self
  | .buildIndex self _ _ => some self
  | .query self _ _ _ => some self
  | _ => none

inductive Answer (D : Type) where
  | object (value : PyObject)
  | collection (self : Nat)
  | infos (infos : List CollectionInfo)
  | indexType (type : IndexType)
  | neighbors (neighbors : List (String × D))

/-- A call that does not come through: the core does what the C++ leaves undefined, or
a handle is followed to a collection that is no more. -/
inductive Broken where
  | core (fault : Fault)
  | dangling

section Perform

variable {D : Type} [FloatOrder D] (host : Host D)

abbrev Performed (D : Type) := Except Raised (Answer D) × World

/-- Converted arguments are used, or the call throws what the conversion threw. -/
def converting {A : Type} (world : World) (converted : Except Raised A)
    (use : A → Except Broken (Performed D)) : Except Broken (Performed D) :=
  match converted with
  | .ok value => use value
  | .error raised => .ok (.error raised, world)

def fromCore {A : Type} : Run A → Except Broken A
  | .ok value => .ok value
  | .error fault => .error (.core fault)

def registered? (engine : Engine) (self : Nat) : Option (Bytes × Collection) :=
  engine.collections.entries.find? (fun entry => decide (entry.2.tag = self))

def following {A : Type} (world : World) (self : Nat)
    (use : Bytes → Collection → Except Broken A) : Except Broken A :=
  match registered? world.engine self with
  | some (name, collection) => use name collection
  | none => .error .dangling

def execute (world : World) (command : Command) : Except Broken (Performed D) := do
  let (status, after) ← fromCore (world.step host command)
  return ((unwrap status).map (fun _ => .object .none), after)

def handleTo (engine : Engine) (name : Bytes) : Answer D :=
  match engine.collections.find? name with
  | some collection => .collection collection.tag
  | none => .object .none

def fromNeighbors : List (Neighbor D) → Except Raised (List (String × D))
  | [] => return []
  | neighbor :: rest => do
      let id ← decode neighbor.id
      let out ← fromNeighbors rest
      return (id, neighbor.distance) :: out

def fromRecord (record : RecordView) : Except Raised (Answer D) := do
  let metadata ← fromOptionalMetadata record.metadata
  return .object (.tuple [fromFloatVector record.vector, metadata])

def createCollection (world : World) (name : PyText) (dim : UInt32) (metric : PyText) :
    Except Broken (Performed D) :=
  converting world (parseMetric metric.cast) (fun parsed =>
    let (created, engine) := world.engine.createCollection name.cast dim parsed.toByte
    .ok ((unwrap created).map (fun handle => handleTo engine handle.name),
      { world with engine := engine }))

def load (world : World) (path : PyText) : Except Broken (Performed D) := do
  let (loaded, engine) ← fromCore
    (world.engine.loadCollection path.cast (world.fileAt path.cast))
  return ((unwrap loaded).map (fun handle => handleTo engine handle.name),
    { world with engine := engine })

def insert (world : World) (self : Nat) (id : PyText) (vector metadata : PyObject) :
    Except Broken (Performed D) :=
  converting world (insertArguments vector metadata) (fun (v, m) =>
    following world self (fun name _ => execute host world (.insert name id.cast v m)))

def insertBatch (world : World) (self : Nat) (records : PyObject) : Except Broken (Performed D) :=
  converting world (toRecords records) (fun inputs =>
    following world self (fun name _ => execute host world (.insertBatch name inputs)))

def get (world : World) (self : Nat) (id : PyText) : Except Broken (Performed D) :=
  following world self (fun _ collection => do
    let result ← fromCore (collection.get world.engine.allocator id.cast)
    return ((unwrap result).bind fromRecord, world))

def buildIndex (world : World) (self : Nat) (type : PyText) (kwargs : List (String × PyObject)) :
    Except Broken (Performed D) :=
  converting world (buildArguments type kwargs) (fun (t, params) =>
    following world self (fun name _ => execute host world (.buildIndex name t params)))

def query (world : World) (self : Nat) (vector k : PyObject) (kwargs : List (String × PyObject)) :
    Except Broken (Performed D) :=
  converting world (queryArguments vector k kwargs) (fun (v, k32, params) =>
    following world self (fun name collection => do
      let (result, after) ← fromCore (collection.query host world.engine.allocator v k32 params)
      return ((unwrap result).bind (fun neighbors => (fromNeighbors neighbors).map .neighbors),
        { world with
          engine := { world.engine with
            collections := world.engine.collections.insert name after } })))

def perform (world : World) (call : PyCall) : Except Broken (Performed D) :=
  match call with
  | .createCollection name dim metric => createCollection world name dim metric
  | .getCollection name =>
      .ok ((unwrap (world.engine.getCollection name.cast)).map
        (fun collection => .collection collection.tag), world)
  | .listCollections => .ok (.ok (.infos world.engine.listCollections), world)
  | .deleteCollection name => execute host world (.deleteCollection name.cast false)
  | .save name path temp outcome =>
      execute host world (.saveCollection name.cast path.cast temp outcome)
  | .load path => load world path
  | .insert self id vector metadata => insert host world self id vector metadata
  | .insertBatch self records => insertBatch host world self records
  | .get self id => get world self id
  | .delete self id =>
      following world self (fun name _ => execute host world (.remove name id.cast))
  | .count self =>
      following world self (fun _ collection => .ok (.ok (.object (.int collection.count)), world))
  | .indexType self =>
      following world self (fun _ collection => .ok (.ok (.indexType collection.indexType), world))
  | .buildIndex self type kwargs => buildIndex host world self type kwargs
  | .query self vector k kwargs => query host world self vector k kwargs

def invoke (world : World) (call : PyCall) :
    Except Broken (Except PyException (Answer D) × World) := do
  let (result, after) ← perform host world call
  return (result.mapError translate, after)

end Perform

end VectorVault.Python
