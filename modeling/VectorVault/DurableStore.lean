import VectorVault.ConcurrentCalls
import VectorVault.IndexedHistories

/-! A store of entries that an engine with its snapshots should be like.

The store has an entry for each collection and one for each file. A save copies an
entry to a file, a load copies it back under its own name, and a restart leaves the
files alone. Memory, indexes and the bytes of a snapshot are not in it. -/

namespace VectorVault

open MemoryAllocator Collection PersistenceManager

def Engine.listCollections (engine : Engine) : List CollectionInfo :=
  engine.collections.entries.map (fun entry => entry.2.info)

namespace World

/-- A new engine in place of the old one, which takes its collections with it. -/
def restart (world : World) (capacity : UInt64) (garbage : Nat → UInt8) : World :=
  ⟨Engine.new capacity garbage, world.files⟩

end World

open Concurrent

namespace Durable

structure Store where
  collections : OrderedMap Bytes Entry
  files : OrderedMap Bytes Entry

namespace Store

def empty : Store := ⟨OrderedMap.empty, OrderedMap.empty⟩

end Store

/-- The updates among the commands, with the collection they go to. -/
def update? : Command → Option (Bytes × Update)
  | .insert name id vec metadata => some (name, .insert id vec metadata)
  | .insertBatch name records => some (name, .insertBatch records)
  | .remove name id => some (name, .remove id)
  | .buildIndex name type params => some (name, .buildIndex type params)
  | _ => none

def target? : Command → Option Bytes
  | .deleteCollection name _ => some name
  | .insert name _ _ _ => some name
  | .insertBatch name _ => some name
  | .remove name _ => some name
  | .buildIndex name _ _ => some name
  | .query name _ _ _ => some name
  | .saveCollection name _ _ _ => some name
  | _ => none

section Specification

variable {D : Type} [LinearOrder D] [OrderTop D] (host : Host D)

/-- What a command does to the store, with the status it ends with. -/
inductive Transacts (store : Store) : Command → Status → Store → Prop
  | invalid {name : Bytes} {dimensionality : UInt32} {metric : UInt8} {error : Error}
      (checked : Engine.checkConfig name dimensionality metric = .error error) :
      Transacts store (.createCollection name dimensionality metric) (.error error) store
  | taken {name : Bytes} {dimensionality : UInt32} {metric : UInt8} {config : CollectionConfig}
      (checked : Engine.checkConfig name dimensionality metric = .ok config)
      (present : store.collections.contains name = true) :
      Transacts store (.createCollection name dimensionality metric)
        (.error (Engine.nameConflict name)) store
  | created {name : Bytes} {dimensionality : UInt32} {metric : UInt8} {config : CollectionConfig}
      (checked : Engine.checkConfig name dimensionality metric = .ok config)
      (absent : store.collections.find? name = none) :
      Transacts store (.createCollection name dimensionality metric) (.ok ())
        { store with
          collections := store.collections.insert name ⟨config, .none, OrderedMap.empty⟩ }
  | unknown {command : Command} {name : Bytes} (targets : target? command = some name)
      (absent : store.collections.find? name = none) :
      Transacts store command (.error (Engine.noCollection name)) store
  | faulted {name : Bytes} (present : store.collections.contains name = true) :
      Transacts store (.deleteCollection name true)
        (.error ⟨.deletionFailed,
          text "deletion of collection '" ++ name ++ text "' failed before completion"⟩) store
  | deleted {name : Bytes} (present : store.collections.contains name = true) :
      Transacts store (.deleteCollection name false) (.ok ())
        { store with collections := store.collections.erase name }
  | updated {command : Command} {name : Bytes} {update : Update} {entry after : Entry}
      {status : Status} (updates : update? command = some (name, update))
      (known : store.collections.find? name = some entry)
      (made : entry.Updates update status after) :
      Transacts store command status
        { store with collections := store.collections.insert name after }
  | queried {name : Bytes} {q : List F32} {k : UInt32} {params : QueryParams} {entry : Entry}
      {answer : Result (List (Neighbor D))} (known : store.collections.find? name = some entry)
      (reads : entry.Reads host (.query q k params) (.neighbors answer)) :
      Transacts store (.query name q k params) (answer.map (fun _ => ())) store
  | unsaved {name path temp : Bytes} {outcome : SaveOutcome} {error : Error}
      (present : store.collections.contains name = true) (failed : outcome ≠ .published)
      (category : error.category = .writeFailure) :
      Transacts store (.saveCollection name path temp outcome) (.error error) store
  | saved {name path temp : Bytes} {entry : Entry}
      (known : store.collections.find? name = some entry) :
      Transacts store (.saveCollection name path temp .published) (.ok ())
        { store with files := store.files.insert path entry }
  | unread {path : Bytes} {error : Error} (absent : store.files.find? path = none)
      (category : error.category = .snapshotNotFound) :
      Transacts store (.loadCollection path) (.error error) store
  | collided {path : Bytes} {entry : Entry} (held : store.files.find? path = some entry)
      (present : store.collections.contains entry.config.name = true) :
      Transacts store (.loadCollection path)
        (.error (Engine.nameConflict entry.config.name)) store
  | loaded {path : Bytes} {entry : Entry} (held : store.files.find? path = some entry)
      (absent : store.collections.find? entry.config.name = none) :
      Transacts store (.loadCollection path) (.ok ())
        { store with collections := store.collections.insert entry.config.name entry }

inductive Event where
  | command (command : Command) (status : Status)
  | restart

inductive Replayed : List Event → Store → Prop
  | start : Replayed [] Store.empty
  | command {events : List Event} {store after : Store} {command : Command} {status : Status}
      (earlier : Replayed events store) (does : Transacts host store command status after) :
      Replayed (events ++ [.command command status]) after
  | restart {events : List Event} {store : Store} (earlier : Replayed events store) :
      Replayed (events ++ [.restart]) { store with collections := OrderedMap.empty }

/-- The own commands of engines one after the other over the same files. After each
of them a snapshot can hold every collection. -/
inductive Session : List Event → World → Prop
  | start (capacity : UInt64) (garbage : Nat → UInt8) : Session [] (World.new capacity garbage)
  | command {events : List Event} {world after : World} {command : Command} {status : Status}
      (earlier : Session events world) (own : command.Own)
      (done : world.step host command = .ok (status, after))
      (within : after.engine.Within Storable) :
      Session (events ++ [.command command status]) after
  | restart {events : List Event} {world : World} (earlier : Session events world)
      (capacity : UInt64) (garbage : Nat → UInt8) :
      Session (events ++ [.restart]) (world.restart capacity garbage)

end Specification

/-- The bytes a collection known by the entry was saved as. -/
def Image (content : FileContent) (entry : Entry) : Prop :=
  ∃ allocator collection, collection.config.Valid ∧ Settled allocator collection entry ∧
    Storable allocator collection ∧ image allocator collection = .ok content.bytes

/-- The collections are as the entries say. -/
structure Known (engine : Engine) (collections : OrderedMap Bytes Entry) : Prop where
  shown : ∀ name collection, engine.collections.find? name = some collection →
    ∃ entry, collections.find? name = some entry ∧ Settled engine.allocator collection entry
  absent : ∀ name, engine.collections.find? name = none → collections.find? name = none

/-- The files are as the entries say, and there are no others. -/
structure Filed (world : World) (files : OrderedMap Bytes Entry) : Prop where
  saved : ∀ path entry, files.find? path = some entry →
    ∃ content, world.fileAt path = .regular content ∧ Image content entry
  missing : ∀ path, files.find? path = none → world.fileAt path = .missing

structure Holds (world : World) (store : Store) : Prop where
  owned : world.engine.Owned
  configured : world.engine.Configured
  known : Known world.engine store.collections
  filed : Filed world store.files

section Known

variable {engine : Engine} {collections collections' : OrderedMap Bytes Entry} {name : Bytes}
  {collection next : Collection} {allocator : MemoryAllocator} {entry after : Entry}

theorem new_known (capacity : UInt64) (garbage : Nat → UInt8) :
    Known (Engine.new capacity garbage) OrderedMap.empty :=
  ⟨fun _ _ found => by (cases found), fun _ _ => rfl⟩

theorem Known.contains (known : Known engine collections) (name : Bytes) :
    collections.contains name = engine.collections.contains name := by
  cases found : engine.collections.find? name with
  | none =>
      rw [OrderedMap.contains, OrderedMap.contains, found, known.absent name found]
      rfl
  | some collection =>
      rcases known.shown name collection found with ⟨entry, isEntry, _⟩
      rw [OrderedMap.contains, OrderedMap.contains, found, isEntry]
      rfl

theorem Known.frame (known : Known engine collections) {tag : Nat}
    (frame : Frame tag engine.allocator allocator)
    (found : engine.collections.find? name = some collection) (other : collection.tag ≠ tag) :
    ∃ entry, collections.find? name = some entry ∧ Settled allocator collection entry := by
  rcases known.shown name collection found with ⟨entry, isEntry, settled⟩
  exact ⟨entry, isEntry, settled.frame frame other⟩

theorem Known.operate (known : Known engine collections) (owned : engine.Owned)
    (found : engine.collections.find? name = some collection)
    (confined : Confined engine.allocator allocator collection next)
    (settled : Settled allocator next after) (here : collections'.find? name = some after)
    (elsewhere : ∀ other, other ≠ name → collections'.find? other = collections.find? other) :
    Known { engine with
      allocator := allocator
      collections := engine.collections.insert name next } collections' := by
  constructor
  · intro other held there
    rw [OrderedMap.find_insert] at there
    by_cases same : other = name
    · rw [if_pos same] at there
      cases there
      exact ⟨after, by rw [same, here], settled⟩
    · rw [if_neg same] at there
      rw [elsewhere other same]
      apply known.frame confined.frame there
      intro equal
      exact same (owned.distinct other name held collection there found equal)
  · intro other missing
    rw [OrderedMap.find_insert] at missing
    by_cases same : other = name
    · rw [if_pos same] at missing
      cases missing
    · rw [if_neg same] at missing
      rw [elsewhere other same]
      exact known.absent other missing

theorem Known.register (known : Known engine collections)
    (absent : engine.collections.find? name = none)
    (settled : Settled engine.allocator collection entry) :
    Known { engine with
      collections := engine.collections.emplace name collection
      nextTag := engine.nextTag + 1 } (collections.insert name entry) := by
  rw [OrderedMap.emplace_of_absent _ _ _ absent]
  constructor
  · intro other held there
    rw [OrderedMap.find_insert] at there ⊢
    by_cases same : other = name
    · rw [if_pos same] at there ⊢
      cases there
      exact ⟨entry, rfl, settled⟩
    · rw [if_neg same] at there ⊢
      exact known.shown other held there
  · intro other missing
    rw [OrderedMap.find_insert] at missing ⊢
    by_cases same : other = name
    · rw [if_pos same] at missing
      cases missing
    · rw [if_neg same] at missing ⊢
      exact known.absent other missing

theorem Known.delete (known : Known engine collections) (owned : engine.Owned)
    (found : engine.collections.find? name = some collection) :
    Known { engine with
      allocator := engine.allocator.releaseAll collection.tag
      collections := engine.collections.erase name } (collections.erase name) := by
  have frame := (releaseAll_owned owned.sound collection.tag).2.1
  constructor
  · intro other held there
    rw [OrderedMap.find_erase] at there ⊢
    by_cases same : other = name
    · rw [if_pos same] at there
      cases there
    · rw [if_neg same] at there ⊢
      apply known.frame frame there
      intro equal
      exact same (owned.distinct other name held collection there found equal)
  · intro other missing
    rw [OrderedMap.find_erase] at missing ⊢
    by_cases same : other = name
    · rw [if_pos same]
    · rw [if_neg same] at missing ⊢
      exact known.absent other missing

theorem Known.conflict (known : Known engine collections) (owned : engine.Owned) :
    Known { engine with
      allocator := engine.allocator.releaseAll engine.nextTag
      nextTag := engine.nextTag + 1 } collections := by
  have frame := (releaseAll_owned owned.sound engine.nextTag).2.1
  refine ⟨?_, known.absent⟩
  intro other held there
  exact known.frame frame there (Nat.ne_of_lt (owned.tags other held there))

theorem new_settled (allocator : MemoryAllocator) (config : CollectionConfig) {tag : Nat}
    (stored : (Collection.new config tag).Stored allocator []) :
    Settled allocator (Collection.new config tag) ⟨config, .none, OrderedMap.empty⟩ where
  config := rfl
  indexType := rfl
  stored := stored
  shows := fun _ => rfl
  indexed := new_indexed config tag
  staged := fun _ member => by cases member
  held := fun _ member => by cases member

end Known

section Filed

variable {world : World} {files : OrderedMap Bytes Entry} {path : Bytes} {content : FileContent}
  {entry : Entry}

theorem Filed.write (filed : Filed world files) (image : Image content entry) :
    Filed { world with files := world.files.insert path (.regular content) }
      (files.insert path entry) := by
  constructor
  · intro other held isHeld
    rw [World.fileAt_insert]
    rw [OrderedMap.find_insert] at isHeld
    by_cases same : other = path
    · rw [if_pos same] at isHeld ⊢
      cases isHeld
      exact ⟨content, rfl, image⟩
    · rw [if_neg same] at isHeld ⊢
      exact filed.saved other held isHeld
  · intro other isMissing
    rw [World.fileAt_insert]
    rw [OrderedMap.find_insert] at isMissing
    by_cases same : other = path
    · rw [if_pos same] at isMissing
      cases isMissing
    · rw [if_neg same] at isMissing ⊢
      exact filed.missing other isMissing

theorem Image.load (image : Image content entry) (path : Bytes) (allocator : MemoryAllocator)
    (tag : Nat) :
    ∃ loaded, PersistenceManager.load path allocator (.regular content) tag = .ok (.ok loaded) ∧
      loaded.config = entry.config ∧
      (loaded.Stored allocator [] → Settled allocator loaded entry) := by
  rcases image with ⟨before, collection, valid, settled, storable, isImage⟩
  rcases load_storable valid settled.stored.named settled.shows settled.indexed storable isImage
    path allocator tag with ⟨loaded, read, same, indexed⟩
  have config := same.config.trans settled.config
  refine ⟨loaded, read, config, ?_⟩
  intro stored
  exact {
    config := config
    indexType := same.type.trans settled.indexType
    stored := stored
    shows := same.shows
    indexed := indexed
    staged := fun _ member => by cases member
    held := fun _ member => by cases member }

end Filed

end Durable

end VectorVault
