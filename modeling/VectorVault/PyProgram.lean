import VectorVault.PyBinding

/-! What a Python program can tell of an engine.

A program sees a store and the names its handles stand for. A call is refused for its
arguments, looks, or makes one transaction of the store; what it throws or returns
is told by the store alone. -/

namespace VectorVault.Python

open PersistenceManager
open Concurrent (Entry)
open Durable (Store Transacts)

section Calls

/-- What a call asks of the core, when its handle is one of the collection `name`:
nothing when it only looks. -/
def commandOf (name : Bytes) : PyCall → Except Raised (Option Command)
  | .createCollection new dim metric => do
      let parsed ← parseMetric metric.cast
      return some (.createCollection new.cast dim parsed.toByte)
  | .deleteCollection old => return some (.deleteCollection old.cast false)
  | .save old path temp outcome => return some (.saveCollection old.cast path.cast temp outcome)
  | .load path => return some (.loadCollection path.cast)
  | .insert _ id vector metadata => do
      let (v, m) ← insertArguments vector metadata
      return some (.insert name id.cast v m)
  | .insertBatch _ records => do
      let inputs ← toRecords records
      return some (.insertBatch name inputs)
  | .delete _ id => return some (.remove name id.cast)
  | .buildIndex _ type kwargs => do
      let (t, params) ← buildArguments type kwargs
      return some (.buildIndex name t params)
  | .query _ vector k kwargs => do
      let (v, k32, params) ← queryArguments vector k kwargs
      return some (.query name v k32 params)
  | .getCollection _ | .listCollections | .get _ _ | .count _ | .indexType _ => return none

def PyCall.Quiet : PyCall → Prop
  | .deleteCollection _ | .save _ _ _ _ | .insert _ _ _ _ | .insertBatch _ _ | .delete _ _
  | .buildIndex _ _ _ => True
  | _ => False

def PyCall.Opens : PyCall → Prop
  | .createCollection _ _ _ | .load _ => True
  | _ => False

def PyCall.Spoken : PyCall → Prop
  | .insert _ (.bytes _) _ _ => False
  | _ => True

instance (call : PyCall) : Decidable call.Spoken :=
  match call with
  | .insert _ (.bytes _) _ _ => .isFalse id
  | .insert _ (.str _) _ _ | .createCollection .. | .getCollection .. | .listCollections
  | .deleteCollection .. | .save .. | .load .. | .insertBatch .. | .get .. | .delete .. | .count ..
  | .indexType .. | .buildIndex .. | .query .. => .isTrue trivial

end Calls

section Refusals

inductive Refusal : Raised → Prop
  | typeError {message : Bytes} : Refusal (.typeError message)
  | castError : Refusal .castError
  | metric {message : Bytes} : Refusal (.core .invalidMetric message)
  | argument {message : Bytes} : Refusal (.core .invalidArgument message)

def Converts {A : Type} (converted : Except Raised A) : Prop :=
  ∀ raised, converted = .error raised → Refusal raised

variable {A B : Type}

theorem converts_ok (value : A) : Converts (.ok value) := fun _ failed => (by cases failed)

theorem converts_error {raised : Raised} (refusal : Refusal raised) :
    Converts (.error raised : Except Raised A) := by
  intro other failed
  cases failed
  exact refusal

theorem Converts.bind {first : Except Raised A} {next : A → Except Raised B}
    (here : Converts first) (later : ∀ value, Converts (next value)) :
    Converts (first >>= next) := by
  intro raised failed
  cases first with
  | error other =>
      cases failed
      exact here _ rfl
  | ok value => exact later value raised failed

theorem toFloatVector_converts (object : PyObject) : Converts (toFloatVector object) := by
  intro raised failed
  unfold toFloatVector at failed
  split at failed
  · rcases toComponents_error failed with ⟨_, _, _, _, _, _, named⟩
    rw [named]
    exact .typeError
  · cases failed
    exact .typeError

theorem toValue_converts (key : Bytes) (object : PyObject) : Converts (toValue key object) := by
  unfold toValue
  split
  · exact converts_ok _
  · split
    · exact converts_ok _
    · exact converts_error .castError
  · exact converts_ok _
  · exact converts_ok _
  · exact converts_error .typeError

theorem toMetadata_converts (items : List (PyObject × PyObject)) (start : Metadata) :
    Converts (toMetadata items start) := by
  induction items generalizing start with
  | nil => exact converts_ok _
  | cons item rest ih =>
      unfold toMetadata
      split
      · exact converts_ok _
      · next same =>
          cases same
          exact (toValue_converts _ _).bind (fun _ => ih _)
      · exact converts_error .typeError

theorem toOptionalMetadata_converts {refused : Raised} (refusal : Refusal refused)
    (object : PyObject) : Converts (toOptionalMetadata refused object) := by
  unfold toOptionalMetadata
  split
  · exact converts_ok _
  · exact (toMetadata_converts _ _).bind (fun _ => converts_ok _)
  · exact converts_error refusal

theorem toRecord_converts (index : Nat) (item : PyObject) : Converts (toRecord index item) := by
  have fields : ∀ id vector metadata, Converts (toRecord.toFields index id vector metadata) := by
    intro id vector metadata
    unfold toRecord.toFields
    split
    · exact (toFloatVector_converts vector).bind (fun _ =>
        (toOptionalMetadata_converts .typeError metadata).bind (fun _ => converts_ok _))
    · exact converts_error .typeError
  unfold toRecord
  split
  · exact converts_error .typeError
  · exact fields _ _ _
  · exact fields _ _ _
  · exact converts_error .typeError

theorem toRecordsFrom_converts (index : Nat) (items : List PyObject) :
    Converts (toRecordsFrom index items) := by
  induction items generalizing index with
  | nil => exact converts_ok _
  | cons item rest ih =>
      exact (toRecord_converts index item).bind (fun _ => (ih _).bind (fun _ => converts_ok _))

theorem toRecords_converts (records : PyObject) : Converts (toRecords records) := by
  unfold toRecords
  split
  · exact toRecordsFrom_converts _ _
  · exact converts_error .typeError

theorem parseMetric_converts (metric : Bytes) : Converts (parseMetric metric) := by
  unfold parseMetric
  simp only
  split_ifs
  · exact converts_ok _
  · exact converts_ok _
  · exact converts_ok _
  · exact converts_error .metric

theorem parseIndexType_converts (type : Bytes) : Converts (parseIndexType type) := by
  unfold parseIndexType
  simp only
  split_ifs
  · exact converts_ok _
  · exact converts_ok _
  · exact converts_ok _
  · exact converts_error .argument

theorem castInt_converts (low high : Int) (object : PyObject) :
    Converts (castInt low high object) := by
  unfold castInt
  split
  · exact converts_ok _
  · split
    · exact converts_ok _
    · exact converts_error .castError
  · exact converts_error .castError

theorem keyword_converts (kwargs : List (String × PyObject)) (name : String) (bits default : Nat) :
    Converts (keyword kwargs name bits default) := by
  unfold keyword
  split
  · exact (castInt_converts _ _ _).bind (fun _ => converts_ok _)
  · exact converts_ok _

theorem toK_converts (object : PyObject) : Converts (toK object) := by
  have cast : ∀ object, Converts (do
      let k ← castInt (-2 ^ 63) (2 ^ 63) object
      if k < 1 then .error (raiseCore .invalidArgument (text "k must be an integer >= 1"))
      else return UInt32.ofNat (min k.toNat (2 ^ 32 - 1))) := by
    intro object
    apply (castInt_converts _ _ object).bind
    intro k
    split
    · exact converts_error .argument
    · exact converts_ok _
  unfold toK
  split
  · exact cast _
  · exact cast _
  · exact converts_error .argument

theorem commandOf_converts (name : Bytes) (call : PyCall) : Converts (commandOf name call) := by
  cases call with
  | createCollection new dim metric =>
      exact (parseMetric_converts _).bind (fun _ => converts_ok _)
  | insert self id vector metadata =>
      apply Converts.bind _ (fun _ => converts_ok _)
      exact (toFloatVector_converts _).bind (fun _ =>
        (toOptionalMetadata_converts .typeError _).bind (fun _ => converts_ok _))
  | insertBatch self records => exact (toRecords_converts records).bind (fun _ => converts_ok _)
  | buildIndex self type kwargs =>
      apply Converts.bind _ (fun _ => converts_ok _)
      apply (parseIndexType_converts _).bind
      intro t
      apply Converts.bind _ (fun _ => converts_ok _)
      exact (keyword_converts _ _ _ _).bind (fun _ => (keyword_converts _ _ _ _).bind (fun _ =>
        (keyword_converts _ _ _ _).bind (fun _ => (keyword_converts _ _ _ _).bind
          (fun _ => converts_ok _))))
  | query self vector k kwargs =>
      apply Converts.bind _ (fun _ => converts_ok _)
      apply (toFloatVector_converts _).bind
      intro v
      apply (toK_converts k).bind
      intro k32
      apply Converts.bind _ (fun _ => converts_ok _)
      exact (keyword_converts _ _ _ _).bind (fun _ => (keyword_converts _ _ _ _).bind
        (fun _ => converts_ok _))
  | deleteCollection | save | load | delete => exact converts_ok _
  | getCollection | listCollections | get | count | indexType => exact converts_ok _

end Refusals

/-- A store, with the names of the collections the handles are of. -/
structure Visible where
  store : Store
  handles : Nat → Option Bytes

namespace Visible

def empty : Visible := ⟨Store.empty, fun _ => none⟩

/-- The handles of collections that are still there. -/
def kept (visible : Visible) (after : Store) (self : Nat) : Option Bytes :=
  (visible.handles self).filter (fun name => after.collections.contains name)

def Leads (visible : Visible) (call : PyCall) (name : Bytes) : Prop :=
  ∀ self, call.self? = some self → visible.handles self = some name

end Visible

section Specification

variable {D : Type} [LinearOrder D] [OrderTop D] (host : Host D)

/-- What a call throws or returns, and what it leaves. -/
inductive Does (before : Visible) : PyCall → Except Raised (Answer D) → Visible → Prop
  | refused {call : PyCall} {name : Bytes} {raised : Raised}
      (conversion : commandOf name call = .error raised) : Does before call (.error raised) before
  | threw {call : PyCall} {name : Bytes} {command : Command} {error : Error}
      (leads : before.Leads call name) (asks : commandOf name call = .ok (some command))
      (fails : Transacts host before.store command (.error error) before.store) :
      Does before call (.error (.core error.category (message error))) before
  | done {call : PyCall} {name : Bytes} {command : Command} {after : Store}
      (leads : before.Leads call name) (asks : commandOf name call = .ok (some command))
      (quiet : call.Quiet) (does : Transacts host before.store command (.ok ()) after) :
      Does before call (.ok (.object .none)) ⟨after, before.kept after⟩
  | handed {call : PyCall} {name new : Bytes} {command : Command} {after : Store} {self : Nat}
      (asks : commandOf name call = .ok (some command)) (opens : call.Opens)
      (does : Transacts host before.store command (.ok ()) after)
      (absent : before.store.collections.find? new = none)
      (present : after.collections.contains new = true) (fresh : before.handles self = none) :
      Does before call (.ok (.collection self))
        ⟨after, Function.update (before.kept after) self (some new)⟩
  | unknown {name : PyText} (absent : before.store.collections.find? name.cast = none) :
      Does before (.getCollection name)
        (.error (.core .notFound (message (Engine.noCollection name.cast)))) before
  | found {name : PyText} {self : Nat}
      (present : before.store.collections.contains name.cast = true)
      (leads : before.handles self = some name.cast) :
      Does before (.getCollection name) (.ok (.collection self)) before
  | listed :
      Does before .listCollections
        (.ok (.infos (before.store.collections.entries.map (fun item => item.2.outline.info))))
        before
  | missing {self : Nat} {id : PyText} {name : Bytes} {entry : Entry}
      (leads : before.handles self = some name)
      (known : before.store.collections.find? name = some entry)
      (unknown : entry.view.find? id.cast = none) :
      Does before (.get self id)
        (.error (.core .notFound (message (Collection.noSuchRecord id.cast)))) before
  | got {self : Nat} {id : PyText} {name : Bytes} {entry : Entry} {record : RecordView}
      {metadata : PyObject} (leads : before.handles self = some name)
      (known : before.store.collections.find? name = some entry)
      (held : entry.view.find? id.cast = some record)
      (converted : fromOptionalMetadata record.metadata = .ok metadata) :
      Does before (.get self id) (.ok (.object (.tuple [fromFloatVector record.vector, metadata])))
        before
  | counted {self : Nat} {name : Bytes} {entry : Entry} (leads : before.handles self = some name)
      (known : before.store.collections.find? name = some entry) :
      Does before (.count self) (.ok (.object (.int entry.view.size))) before
  | typed {self : Nat} {name : Bytes} {entry : Entry} (leads : before.handles self = some name)
      (known : before.store.collections.find? name = some entry) :
      Does before (.indexType self) (.ok (.indexType entry.indexType)) before
  | answered {self : Nat} {vector k : PyObject} {kwargs : List (String × PyObject)} {name : Bytes}
      {entry : Entry} {q : List F32} {k32 : UInt32} {params : QueryParams}
      {results : List (Neighbor D)} {out : List (String × D)}
      (leads : before.handles self = some name)
      (asks : commandOf name (.query self vector k kwargs) = .ok (some (.query name q k32 params)))
      (known : before.store.collections.find? name = some entry)
      (reads : entry.Reads host (.query q k32 params) (.neighbors (.ok results)))
      (named : results = out.map (fun given => ⟨encode given.1, given.2⟩)) :
      Does before (.query self vector k kwargs) (.ok (.neighbors out)) before

inductive Event (D : Type) where
  | call (call : PyCall) (result : Except PyException (Answer D))
  | restart

/-- What a program may see of a store and its handles, from nothing on; what a call
throws is translated. -/
inductive Traced : List (Event D) → Visible → Prop
  | start : Traced [] Visible.empty
  | call {events : List (Event D)} {before after : Visible} {call : PyCall}
      {result : Except Raised (Answer D)} (earlier : Traced events before)
      (does : Does host before call result after) :
      Traced (events ++ [.call call (result.mapError translate)]) after
  | restart {events : List (Event D)} {before : Visible} (earlier : Traced events before) :
      Traced (events ++ [.restart])
        ⟨{ before.store with collections := OrderedMap.empty }, fun _ => none⟩

/-- A call, with what it returns or throws, or a new engine over the same files. New
identifiers are text, and after each call a snapshot can hold every collection. -/
inductive Goes (world : World) : Event D → World → Prop
  | call {after : World} {call : PyCall} {result : Except PyException (Answer D)}
      (spoken : call.Spoken) (done : invoke host world call = .ok (result, after))
      (within : after.engine.Within Storable) : Goes world (.call call result) after
  | restart (capacity : UInt64) (garbage : Nat → UInt8) :
      Goes world .restart (world.restart capacity garbage)

inductive Session : List (Event D) → World → Prop
  | start (capacity : UInt64) (garbage : Nat → UInt8) : Session [] (World.new capacity garbage)
  | step {events : List (Event D)} {event : Event D} {world after : World}
      (earlier : Session events world) (goes : Goes host world event after) :
      Session (events ++ [event]) after

end Specification

section Records

inductive Brings : Command → RecordId → RecordView → Prop
  | insert {name : Bytes} {id : RecordId} {vec : List F32} {metadata : Option Metadata} :
      Brings (.insert name id vec metadata) id ⟨vec, metadata⟩
  | insertBatch {name : Bytes} {records : List RecordInput} {record : RecordInput}
      (member : record ∈ records) :
      Brings (.insertBatch name records) record.id ⟨record.vector, record.metadata⟩

/-- Each record of the collections and the files is one that `holds`. -/
structure Each (holds : RecordId → RecordView → Prop) (store : Store) : Prop where
  collections : ∀ name entry, store.collections.find? name = some entry →
    ∀ id record, entry.view.find? id = some record → holds id record
  files : ∀ path entry, store.files.find? path = some entry →
    ∀ id record, entry.view.find? id = some record → holds id record

end Records

end VectorVault.Python
