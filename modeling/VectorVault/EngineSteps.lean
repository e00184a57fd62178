import VectorVault.Engine

/-! What one command can do to a world.

A command that comes through has one of a few effects. Invariants of whole runs
are proved for each effect and hold of every step by `step_effect`. -/

namespace VectorVault

open PersistenceManager

/-- An operation of a handle that came through, on the allocator and a collection. -/
inductive Operated {D : Type} [FloatOrder D] (host : Host D) (allocator : MemoryAllocator)
    (collection : Collection) : MemoryAllocator → Collection → Prop where
  | insert {id : RecordId} {vec : List F32} {metadata : Option Metadata} {status : Status}
      {allocator' : MemoryAllocator} {next : Collection}
      (done : collection.insert host allocator id vec metadata = .ok (status, allocator', next)) :
      Operated host allocator collection allocator' next
  | insertBatch {records : List RecordInput} {status : Status} {allocator' : MemoryAllocator}
      {next : Collection}
      (done : collection.insertBatch host allocator records = .ok (status, allocator', next)) :
      Operated host allocator collection allocator' next
  | remove {id : RecordId} {status : Status} {allocator' : MemoryAllocator} {next : Collection}
      (done : collection.remove allocator id = .ok (status, allocator', next)) :
      Operated host allocator collection allocator' next
  | buildIndex {type : IndexType} {params : IndexParams} {status : Status} {next : Collection}
      (done : collection.buildIndex host allocator type params = .ok (status, next)) :
      Operated host allocator collection allocator next
  | query {q : List F32} {k : UInt32} {params : QueryParams} {answer : Result (List (Neighbor D))}
      {next : Collection}
      (done : collection.query host allocator q k params = .ok (answer, next)) :
      Operated host allocator collection allocator next

namespace World

inductive Effect {D : Type} [FloatOrder D] (host : Host D) (world : World) :
    Command → World → Prop where
  | idle {command : Command} : Effect host world command world
  | created {name : Bytes} {dimensionality : UInt32} {metric : UInt8} {config : CollectionConfig}
      (checked : Engine.checkConfig name dimensionality metric = .ok config)
      (absent : world.engine.collections.find? name = none) :
      Effect host world (.createCollection name dimensionality metric)
        { world with
          engine :=
            { world.engine with
              collections := world.engine.collections.emplace name
                (Collection.new config world.engine.nextTag)
              nextTag := world.engine.nextTag + 1 } }
  | deleted {name : Bytes} {fault : Bool} {collection : Collection}
      (found : world.engine.collections.find? name = some collection) :
      Effect host world (.deleteCollection name fault)
        { world with
          engine :=
            { world.engine with
              allocator := world.engine.allocator.releaseAll collection.tag
              collections := world.engine.collections.erase name } }
  | operated {command : Command} {name : Bytes} {collection next : Collection}
      {allocator : MemoryAllocator}
      (found : world.engine.collections.find? name = some collection)
      (operation : Operated host world.engine.allocator collection allocator next) :
      Effect host world command
        { world with
          engine :=
            { world.engine with
              allocator := allocator
              collections := world.engine.collections.insert name next } }
  | saved {name path temp : Bytes} {outcome : SaveOutcome} {collection : Collection}
      {content : FileContent}
      (found : world.engine.collections.find? name = some collection)
      (encoded : image world.engine.allocator collection = .ok content.bytes) :
      Effect host world (.saveCollection name path temp outcome)
        { world with files := world.files.insert path (.regular content) }
  | refused {path : Bytes} :
      Effect host world (.loadCollection path)
        { world with engine := { world.engine with nextTag := world.engine.nextTag + 1 } }
  | conflicted {path : Bytes} :
      Effect host world (.loadCollection path)
        { world with
          engine :=
            { world.engine with
              allocator := world.engine.allocator.releaseAll world.engine.nextTag
              nextTag := world.engine.nextTag + 1 } }
  | loaded {path : Bytes} {collection : Collection}
      (read : load path world.engine.allocator (world.fileAt path) world.engine.nextTag =
        .ok (.ok collection))
      (absent : world.engine.collections.find? collection.config.name = none) :
      Effect host world (.loadCollection path)
        { world with
          engine :=
            { world.engine with
              collections := world.engine.collections.emplace collection.config.name collection
              nextTag := world.engine.nextTag + 1 } }
  | put {path : Bytes} {file : SnapshotFile} :
      Effect host world (.putFile path file)
        { world with files := world.files.insert path file }

variable {D : Type} [FloatOrder D] {host : Host D} {world after : World} {status : Status}
  {name path : Bytes}

theorem onHandle_effect {command : Command}
    {operation : MemoryAllocator → Collection → Run (Status × MemoryAllocator × Collection)}
    (operates : ∀ collection status allocator next,
      operation world.engine.allocator collection = .ok (status, allocator, next) →
        Operated host world.engine.allocator collection allocator next)
    (done : world.onHandle name operation = .ok (status, after)) :
    Effect host world command after := by
  obtain ⟨⟨_, engine⟩, step, result⟩ := bind_ok done
  cases result
  unfold Engine.onCollection at step
  cases found : world.engine.collections.find? name with
  | none =>
      rw [found] at step
      cases step
      exact .idle
  | some collection =>
      rw [found] at step
      obtain ⟨⟨_, allocator, next⟩, operated, result⟩ := bind_ok step
      cases result
      exact .operated found (operates collection _ allocator next operated)

theorem createCollection_effect (world : World) (name : Bytes) (dimensionality : UInt32)
    (metric : UInt8) :
    Effect host world (.createCollection name dimensionality metric)
      { world with
        engine := (world.engine.createCollection name dimensionality metric).2 } := by
  unfold Engine.createCollection
  cases checked : Engine.checkConfig name dimensionality metric with
  | error error => exact .idle
  | ok config =>
      simp only
      split
      · exact .idle
      · next fresh =>
          exact Effect.created checked (OrderedMap.absent_of_not_contains fresh)

theorem deleteCollection_effect (world : World) (name : Bytes) (fault : Bool) :
    Effect host world (.deleteCollection name fault)
      { world with engine := (world.engine.deleteCollection name fault).2 } := by
  unfold Engine.deleteCollection
  cases found : world.engine.collections.find? name with
  | none => exact .idle
  | some collection =>
      simp only
      split
      · exact .idle
      · exact .deleted found

theorem saveCollection_effect {temp : Bytes} {outcome : SaveOutcome}
    (done : world.step host (.saveCollection name path temp outcome) = .ok (status, after)) :
    Effect host world (.saveCollection name path temp outcome) after := by
  obtain ⟨⟨_, written⟩, saved, result⟩ := bind_ok done
  cases written with
  | none =>
      cases result
      exact .idle
  | some content =>
      cases result
      unfold Engine.saveCollection at saved
      cases found : world.engine.collections.find? name with
      | none =>
          rw [found] at saved
          cases saved
      | some collection =>
          rw [found] at saved
          obtain ⟨bytes, encoded, result⟩ := bind_ok saved
          cases outcome with
          | writeFailed => cases result
          | renameFailed => cases result
          | published =>
              simp only at result
              split at result
              · cases result
                exact .saved found encoded
              · cases result

theorem loadCollection_effect
    (done : world.step host (.loadCollection path) = .ok (status, after)) :
    Effect host world (.loadCollection path) after := by
  obtain ⟨⟨_, engine⟩, loaded, result⟩ := bind_ok done
  cases result
  obtain ⟨outcome, read, result⟩ := bind_ok loaded
  cases outcome with
  | error error =>
      cases result
      exact .refused
  | ok collection =>
      simp only at result
      split at result
      · cases result
        exact .conflicted
      · next fresh =>
          cases result
          exact Effect.loaded read (OrderedMap.absent_of_not_contains fresh)

theorem step_effect {command : Command} (done : world.step host command = .ok (status, after)) :
    Effect host world command after := by
  cases command with
  | createCollection name dimensionality metric =>
      cases done
      exact createCollection_effect world name dimensionality metric
  | deleteCollection name fault =>
      cases done
      exact deleteCollection_effect world name fault
  | insert name id vec metadata =>
      apply onHandle_effect _ done
      intro collection status allocator next operated
      exact .insert operated
  | insertBatch name records =>
      apply onHandle_effect _ done
      intro collection status allocator next operated
      exact .insertBatch operated
  | remove name id =>
      apply onHandle_effect _ done
      intro collection status allocator next operated
      exact .remove operated
  | buildIndex name type params =>
      apply onHandle_effect _ done
      intro collection status allocator next operated
      obtain ⟨⟨_, built⟩, inner, result⟩ := bind_ok operated
      cases result
      exact .buildIndex inner
  | query name q k params =>
      apply onHandle_effect _ done
      intro collection status allocator next operated
      obtain ⟨⟨_, refreshed⟩, inner, result⟩ := bind_ok operated
      cases result
      exact .query inner
  | saveCollection name path temp outcome => exact saveCollection_effect done
  | loadCollection path => exact loadCollection_effect done
  | putFile path file =>
      cases done
      exact .put

theorem run_keeps {kept : World → Prop} {commands : List Command} {statuses : List Status}
    (keeps : ∀ world command after, command ∈ commands → kept world →
      Effect host world command after → kept after)
    (start : kept world) (done : world.run host commands = .ok (statuses, after)) : kept after := by
  induction commands generalizing world statuses with
  | nil =>
      cases done
      exact start
  | cons command rest ih =>
      obtain ⟨⟨status, middle⟩, first, done⟩ := bind_ok done
      obtain ⟨⟨later, final⟩, second, result⟩ := bind_ok done
      cases result
      apply ih _ (keeps world command middle List.mem_cons_self start (step_effect first)) second
      intro world' other after' member
      exact keeps world' other after' (List.mem_cons_of_mem command member)

end World

end VectorVault
