import VectorVault.EngineViews
import VectorVault.LoadedIndex

/-! The components of stored vectors are finite numbers.

Inserts check it. A load does not: it holds as long as the vectors of the loaded
files are finite. -/

namespace VectorVault

open Snapshot Collection PersistenceManager

def FiniteComponents (vec : List F32) : Prop := ∀ component ∈ vec, component.isFinite = true

instance (vec : List F32) : Decidable (FiniteComponents vec) :=
  List.decidableBAll (fun component : F32 => component.isFinite = true) vec

def FiniteView (view : OrderedMap RecordId RecordView) : Prop :=
  ∀ id record, view.find? id = some record → FiniteComponents record.vector

section Operations

variable {D : Type} [FloatOrder D] {host : Host D} {allocator allocator' : MemoryAllocator}
  {collection next : Collection} {view : OrderedMap RecordId RecordView}

theorem FiniteView.insert (finite : FiniteView view) (id : RecordId) {record : RecordView}
    (new : FiniteComponents record.vector) : FiniteView (view.insert id record) := by
  intro other held found
  rw [OrderedMap.find_insert] at found
  split at found
  · cases found
    exact new
  · exact finite other held found

theorem FiniteView.removed (finite : FiniteView view) (id : RecordId) (status : Status) :
    FiniteView (removed view id status) := by
  cases status with
  | error error => exact finite
  | ok done =>
      intro other held found
      rw [Collection.removed, OrderedMap.find_erase] at found
      split at found
      · cases found
      · exact finite other held found

theorem FiniteView.inserted (finite : FiniteView view) {id : RecordId} {vec : List F32}
    {metadata : Option Metadata} {status : Status}
    (done : collection.insert host allocator id vec metadata = .ok (status, allocator', next)) :
    FiniteView (inserted view id vec metadata status) := by
  cases status with
  | error error => exact finite
  | ok stored =>
      unfold Collection.insert at done
      cases valid : rejectInsert collection.config id vec with
      | some error =>
          rw [valid] at done
          cases done
      | none => exact finite.insert id (rejectInsert_none valid).2.2

theorem FiniteView.insertedAll (finite : FiniteView view) (records : List RecordInput)
    (valid : ∀ record ∈ records, FiniteComponents record.vector) :
    FiniteView (insertedAll view records) := by
  induction records generalizing view with
  | nil => exact finite
  | cons record rest ih =>
      apply ih
      · exact finite.insert record.id (valid record List.mem_cons_self)
      · intro other member
        exact valid other (List.mem_cons_of_mem record member)

theorem FiniteView.insertedBatch (finite : FiniteView view) {records : List RecordInput}
    {status : Status}
    (done : collection.insertBatch host allocator records = .ok (status, allocator', next)) :
    FiniteView (insertedBatch view records status) := by
  cases status with
  | error error => exact finite
  | ok stored =>
      unfold Collection.insertBatch at done
      cases valid : rejectBatch collection.config records with
      | some error =>
          rw [valid] at done
          cases done
      | none =>
          apply finite.insertedAll
          intro record member
          exact (rejectBatch_none valid record member).2.2

theorem Operated.finite (operated : Operated host allocator collection allocator' next)
    (sound : allocator.Sound) (stored : collection.Stored allocator [])
    (shows_ : collection.Shows allocator view) (finite : FiniteView view) :
    ∃ viewAfter, Advances [] allocator allocator' collection next viewAfter ∧
      FiniteView viewAfter := by
  cases operated with
  | insert done => exact ⟨_, insert_advances sound stored shows_ done, finite.inserted done⟩
  | insertBatch done =>
      exact ⟨_, insertBatch_advances sound stored shows_ done, finite.insertedBatch done⟩
  | remove done => exact ⟨_, remove_advances sound stored shows_ done, finite.removed _ _⟩
  | buildIndex done =>
      obtain ⟨same, records, count⟩ := buildIndex_ok done
      exact ⟨view, stored.reindexed sound shows_ same records count, finite⟩
  | query done =>
      rcases queryWith_ok done with unchanged | ⟨_, _, _, _, _, shape⟩
      · rw [unchanged]
        exact ⟨view, stored.advances sound shows_, finite⟩
      · rw [shape]
        exact ⟨view, stored.reindexed sound shows_ ⟨rfl, rfl, rfl⟩ rfl rfl, finite⟩

end Operations

section Load

def FiniteFile (path : Bytes) (file : SnapshotFile) : Prop :=
  ∀ preamble records reader, readPreamble path file = .ok preamble →
    readDirectory path preamble.header preamble.bytes.length
      preamble.header.recordCount.toNat preamble.reader OrderedMap.empty =
        .ok (.ok (records, reader)) →
    ∀ id slot offset, records.find? id = some slot → slot.vectorBlock.data = .mapped offset →
      FiniteComponents (getVector ((preamble.bytes.drop offset).take preamble.header.stride.toNat))

theorem load_finite {path : Bytes} {allocator : MemoryAllocator} {file : SnapshotFile} {tag : Nat}
    {collection : Collection} (finite : FiniteFile path file)
    (loaded : load path allocator file tag = .ok (.ok collection)) :
    ∃ view, collection.Shows allocator view ∧ FiniteView view := by
  obtain ⟨preamble, records, reader, stages⟩ := load_ok loaded
  obtain ⟨view, shows_⟩ := stages.listed.shows allocator tag
  have shown : collection.Shows allocator view := by
    rw [stages.result]
    exact shows_
  refine ⟨view, shown, ?_⟩
  intro id record known
  cases found : records.find? id with
  | none =>
      rw [Shows.absent shows_ found] at known
      cases known
  | some slot =>
      obtain ⟨vec, read, isVec⟩ := Shows.slot shows_ found
      rw [known] at isVec
      cases isVec
      obtain ⟨offset, block, components⟩ := @Window.components allocator
        (preamble.collection tag records) _ _ _ (stages.listed.windows id slot found) rfl rfl
      rw [read] at components
      cases components
      exact finite preamble records reader stages.parsed stages.directory id slot offset found block

/-- Whether the vectors of a file are finite, found by reading it. -/
def finiteFile (path : Bytes) (file : SnapshotFile) : Bool :=
  match readPreamble path file with
  | .error _ => true
  | .ok preamble =>
      match readDirectory path preamble.header preamble.bytes.length
          preamble.header.recordCount.toNat preamble.reader OrderedMap.empty with
      | .ok (.ok (records, _)) => records.entries.all (fun entry =>
          match entry.2.vectorBlock.data with
          | .mapped offset => decide (FiniteComponents (getVector
              ((preamble.bytes.drop offset).take preamble.header.stride.toNat)))
          | _ => true)
      | _ => true

theorem finiteFile_sound {path : Bytes} {file : SnapshotFile}
    (checked : finiteFile path file = true) : FiniteFile path file := by
  intro preamble records reader parsed directory id slot offset found block
  simp only [finiteFile, parsed, directory, List.all_eq_true] at checked
  have here := checked (id, slot) ((OrderedMap.find_eq_some_iff _ _ _).mp found)
  simp only [block, decide_eq_true_eq] at here
  exact here

end Load

namespace Engine

def AllFinite (engine : Engine) : Prop :=
  ∀ name collection, engine.collections.find? name = some collection → ∀ id record,
    collection.get engine.allocator id = .ok (.ok record) →
      ∀ component ∈ record.vector, component.isFinite = true

theorem Each.finite {engine : Engine} (each : engine.Each (fun _ view => FiniteView view)) :
    engine.AllFinite := by
  intro name collection found id record answer
  obtain ⟨view, shows_, finite⟩ := each name collection found
  rw [shows_ id] at answer
  cases known : view.find? id with
  | none =>
      rw [known] at answer
      cases answer
  | some shown =>
      rw [known] at answer
      cases answer
      exact finite id _ known

end Engine

namespace World

variable {D : Type} [FloatOrder D] (host : Host D)

/-- Whenever a run comes to a load that succeeds, the file there is finite. -/
def LoadsFinite : World → List Command → Prop
  | _, [] => True
  | world, command :: rest =>
      (∀ path after, command = .loadCollection path →
        world.step host command = .ok (.ok (), after) → FiniteFile path (world.fileAt path)) ∧
        ∀ status after, world.step host command = .ok (status, after) → LoadsFinite after rest

variable {host}

theorem LoadsFinite.only {world : World} {commands : List Command}
    (loads : LoadsFinite host world commands) : LoadsOnly host FiniteFile world commands := by
  induction commands generalizing world with
  | nil => trivial
  | cons command rest ih =>
      exact ⟨loads.1, fun status after done => ih (loads.2 status after done)⟩

/-- As long as every loaded file is finite, every stored component is. -/
theorem run_finite {capacity : UInt64} {garbage : Nat → UInt8} {commands : List Command}
    {statuses : List Status} {world : World}
    (loads : LoadsFinite host (new capacity garbage) commands)
    (done : (new capacity garbage).run host commands = .ok (statuses, world)) :
    world.engine.AllFinite := by
  have each := run_each_loading (fun _ _ _ _ empty => by cases empty)
    (fun _ _ _ _ _ operated sound stored shows_ finite =>
      operated.finite sound stored shows_ finite)
    (fun _ _ _ _ _ finite loaded => load_finite finite loaded)
    (Engine.new_owned capacity garbage) (Engine.new_each capacity garbage) loads.only done
  exact each.2.finite

def readsFinite (world : World) : Command → Bool
  | .loadCollection path => finiteFile path (world.fileAt path)
  | _ => true

variable (host) in
def loadsFinite : World → List Command → Bool
  | _, [] => true
  | world, command :: rest =>
      world.readsFinite command &&
        match world.step host command with
        | .ok (_, after) => loadsFinite after rest
        | .error _ => true

theorem loadsFinite_sound {world : World} {commands : List Command}
    (checked : world.loadsFinite host commands = true) : LoadsFinite host world commands := by
  induction commands generalizing world with
  | nil => trivial
  | cons command rest ih =>
      rw [loadsFinite, Bool.and_eq_true] at checked
      refine ⟨?_, ?_⟩
      · intro path after isLoad _
        rw [isLoad] at checked
        exact finiteFile_sound checked.1
      · intro status after stepped
        have later := checked.2
        rw [stepped] at later
        exact ih later

/-- Two records are saved, dropped and loaded, and a third is put beside them. -/
def loadedRun : List Command :=
  [.createCollection [99] 1 0, .insert [99] [97] [0x3F800000] none,
    .insert [99] [98] [0x40000000] none, .saveCollection [99] [102] [116] .published,
    .deleteCollection [99] false, .loadCollection [102], .insert [99] [100] [0x40400000] none]

theorem run_finite_of_load :
    ∃ (statuses : List Status) (world : World) (collection : Collection),
      (new 256 (fun _ => 0)).run (ExactLine.host []) loadedRun = .ok (statuses, world) ∧
      world.engine.collections.find? [99] = some collection ∧ collection.recordCount = 3 ∧
      collection.mappedRegion ≠ [] ∧ world.engine.AllFinite := by
  have reaches : ∃ statuses world collection,
      (new 256 (fun _ => 0)).run (ExactLine.host []) loadedRun = .ok (statuses, world) ∧
      world.engine.collections.find? [99] = some collection ∧
      decide (collection.recordCount = 3 ∧ collection.mappedRegion ≠ []) = true :=
    exists_of_reached (by decide +kernel)
  rcases reaches with ⟨statuses, world, collection, done, found, told⟩
  rcases of_decide_eq_true told with ⟨count, mapped⟩
  have loads : (new 256 (fun _ => 0)).loadsFinite (ExactLine.host []) loadedRun = true := by
    decide +kernel
  exact ⟨statuses, world, collection, done, found, count, mapped,
    run_finite (loadsFinite_sound loads) done⟩

def notANumber : CollectionSnapshotData :=
  { config := ⟨[99], 1, .euclidean⟩
    indexType := .none
    records := [⟨[97], [0x7FC00000], none⟩]
    indexBlob := [] }

def notANumberFile : FileContent := ⟨(encode notANumber).toOption.getD [], by decide +kernel⟩

theorem load_admits_a_nan :
    ¬ ∀ (capacity : UInt64) (garbage : Nat → UInt8) (commands : List Command)
      (statuses : List Status) (world : World),
      (new capacity garbage).run (ExactLine.host []) commands = .ok (statuses, world) →
        world.engine.AllFinite := by
  intro finite
  have reaches : ∃ statuses world collection, (new 64 (fun _ => 0)).run (ExactLine.host [])
        [.putFile [102] (.regular notANumberFile), .loadCollection [102]] =
          .ok (statuses, world) ∧
      world.engine.collections.find? [99] = some collection ∧
      (collection.get world.engine.allocator [97]).toOption.any (fun answer =>
        answer.toOption.any (fun record => decide (record.vector = [0x7FC00000]))) = true :=
    exists_of_reached (by decide +kernel)
  obtain ⟨statuses, world, collection, done, found, told⟩ := reaches
  obtain ⟨answer, answered, told⟩ := ok_of_any told
  obtain ⟨record, isRecord, told⟩ := ok_of_any told
  rw [isRecord] at answered
  have vector := of_decide_eq_true told
  have isFinite := finite _ _ _ _ _ done [99] collection found [97] record answered
    0x7FC00000 (by rw [vector]; exact List.mem_singleton_self _)
  exact absurd isFinite (by decide)

end World

end VectorVault
