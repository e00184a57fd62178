import VectorVault.CallPhases
import VectorVault.CollectionQuery
import VectorVault.SharedReads
import VectorVault.SnapshotCapture
import VectorVault.Library.Linearizability

/-! Calls of many callers on one engine, in any interleaving.

An operation of the registry is done under the engine's lock, all at once. A
call on a collection waits for its lock, exclusive or shared, goes on in steps,
releases the lock and returns. A handle is not used after its collection is
deleted, and a query that refreshes an index has no other reader beside it. -/

namespace VectorVault.Concurrent

open Linearizability MemoryAllocator Collection

inductive Operation where
  | createCollection (name : Bytes) (dimensionality : UInt32) (metric : UInt8)
  | deleteCollection (name : Bytes) (fault : Bool)
  | getCollection (name : Bytes)
  | update (name : Bytes) (update : Update)
  | read (name : Bytes) (request : SharedRead)

def Operation.target : Operation → Option Bytes
  | .update name _ => some name
  | .read name _ => some name
  | _ => none

inductive Answer (D : Type) where
  | status (status : Status)
  | handle (found : Result CollectionHandle)
  | result (result : ReadResult D)

inductive Progress (D : Type) where
  | idle
  | waiting (operation : Operation)
  | writing (name : Bytes) (update : Update) (phase : Phase)
  | reading (name : Bytes) (request : SharedRead)
  | holding (operation : Operation) (answer : Answer D)
  | answered (operation : Operation) (answer : Answer D)
  | returned (operation : Operation) (answer : Answer D)

namespace Progress

variable {D : Type}

def Writes (name : Bytes) : Progress D → Prop
  | .writing other _ _ => other = name
  | .holding (.update other _) _ => other = name
  | _ => False

def Holds (name : Bytes) : Progress D → Prop
  | .writing other _ _ => other = name
  | .reading other _ => other = name
  | .holding operation _ => operation.target = some name
  | _ => False

def Uses (name : Bytes) : Progress D → Prop
  | .waiting operation => operation.target = some name
  | .writing other _ _ => other = name
  | .reading other _ => other = name
  | .holding operation _ => operation.target = some name
  | _ => False

def stage : Progress D → Stage Operation (Answer D)
  | .idle => .idle
  | .waiting operation => .invoked operation
  | .writing name update _ => .invoked (.update name update)
  | .reading name request => .invoked (.read name request)
  | .holding operation answer => .taken operation answer
  | .answered operation answer => .taken operation answer
  | .returned operation answer => .responded operation answer

end Progress

structure ConcurrentEngine (I D : Type) where
  engine : Engine
  calls : I → Progress D

namespace ConcurrentEngine

variable {I D : Type}

def new (capacityBytes : UInt64) (garbage : Nat → UInt8) : ConcurrentEngine I D :=
  ⟨Engine.new capacityBytes garbage, fun _ => .idle⟩

variable [DecidableEq I]

def move (state : ConcurrentEngine I D) (call : I) (progress : Progress D) :
    ConcurrentEngine I D :=
  { state with calls := Function.update state.calls call progress }

def put (state : ConcurrentEngine I D) (name : Bytes) (allocator : MemoryAllocator)
    (collection : Collection) (call : I) (progress : Progress D) : ConcurrentEngine I D :=
  { engine := { state.engine with
      allocator := allocator
      collections := state.engine.collections.insert name collection }
    calls := Function.update state.calls call progress }

theorem move_calls (state : ConcurrentEngine I D) (call : I) (progress : Progress D) :
    (state.move call progress).calls = Function.update state.calls call progress := rfl

theorem put_calls (state : ConcurrentEngine I D) (name : Bytes) (allocator : MemoryAllocator)
    (collection : Collection) (call : I) (progress : Progress D) :
    (state.put name allocator collection call progress).calls =
      Function.update state.calls call progress := rfl

theorem put_collections (state : ConcurrentEngine I D) (name : Bytes)
    (allocator : MemoryAllocator) (collection : Collection) (call : I) (progress : Progress D) :
    (state.put name allocator collection call progress).engine.collections =
      state.engine.collections.insert name collection := rfl

end ConcurrentEngine

def rejectRead (config : CollectionConfig) : SharedRead → Option Error
  | .query q k _ => rejectQuery config q k
  | _ => none

section Step

variable {I D : Type} [DecidableEq I] [FloatOrder D] (host : Host D)

inductive Step (state : ConcurrentEngine I D) :
    Option (Label I Operation (Answer D)) → ConcurrentEngine I D → Prop
  | invoke {call : I} {operation : Operation} (unused : state.calls call = .idle)
      (registered : ∀ name, operation.target = some name →
        state.engine.collections.contains name = true) :
      Step state (some (.invoke call operation)) (state.move call (.waiting operation))
  | create {call : I} {name : Bytes} {dimensionality : UInt32} {metric : UInt8}
      {created : Result CollectionHandle} {after : Engine}
      (waits : state.calls call = .waiting (.createCollection name dimensionality metric))
      (done : state.engine.createCollection name dimensionality metric = (created, after)) :
      Step state (some (.point call (.createCollection name dimensionality metric)
          (.handle created)))
        ⟨after, Function.update state.calls call
          (.answered (.createCollection name dimensionality metric) (.handle created))⟩
  | delete {call : I} {name : Bytes} {fault : Bool} {status : Status} {after : Engine}
      (waits : state.calls call = .waiting (.deleteCollection name fault))
      (unused : status = .ok () → ∀ other, ¬ (state.calls other).Uses name)
      (done : state.engine.deleteCollection name fault = (status, after)) :
      Step state (some (.point call (.deleteCollection name fault) (.status status)))
        ⟨after, Function.update state.calls call
          (.answered (.deleteCollection name fault) (.status status))⟩
  | find {call : I} {name : Bytes} (waits : state.calls call = .waiting (.getCollection name)) :
      Step state (some (.point call (.getCollection name)
          (.handle ((state.engine.getCollection name).map (fun _ => ⟨name⟩)))))
        (state.move call (.answered (.getCollection name)
          (.handle ((state.engine.getCollection name).map (fun _ => ⟨name⟩)))))
  | reject {call : I} {name : Bytes} {update : Update} {collection : Collection} {error : Error}
      (waits : state.calls call = .waiting (.update name update))
      (found : state.engine.collections.find? name = some collection)
      (rejected : update.reject collection.config = some error) :
      Step state (some (.point call (.update name update) (.status (.error error))))
        (state.move call (.answered (.update name update) (.status (.error error))))
  | refuse {call : I} {name : Bytes} {q : List F32} {k : UInt32} {params : QueryParams}
      {collection : Collection} {error : Error}
      (waits : state.calls call = .waiting (.read name (.query q k params)))
      (found : state.engine.collections.find? name = some collection)
      (rejected : rejectQuery collection.config q k = some error) :
      Step state (some (.point call (.read name (.query q k params))
          (.result (.neighbors (.error error)))))
        (state.move call (.answered (.read name (.query q k params))
          (.result (.neighbors (.error error)))))
  | lock {call : I} {name : Bytes} {update : Update} {collection : Collection}
      (waits : state.calls call = .waiting (.update name update))
      (found : state.engine.collections.find? name = some collection)
      (valid : update.reject collection.config = none)
      (free : ∀ other, ¬ (state.calls other).Holds name) :
      Step state none (state.move call (.writing name update .started))
  | advance {call : I} {name : Bytes} {update : Update} {phase later : Phase}
      {collection next : Collection} {allocator : MemoryAllocator}
      (writes : state.calls call = .writing name update phase)
      (found : state.engine.collections.find? name = some collection)
      (done : advance host state.engine.allocator collection update phase =
        .ok (allocator, next, later))
      (going : ∀ status, later ≠ .answered status) :
      Step state none (state.put name allocator next call (.writing name update later))
  | finish {call : I} {name : Bytes} {update : Update} {phase : Phase}
      {collection next : Collection} {allocator : MemoryAllocator} {status : Status}
      (writes : state.calls call = .writing name update phase)
      (found : state.engine.collections.find? name = some collection)
      (done : advance host state.engine.allocator collection update phase =
        .ok (allocator, next, .answered status)) :
      Step state (some (.point call (.update name update) (.status status)))
        (state.put name allocator next call (.holding (.update name update) (.status status)))
  | share {call : I} {name : Bytes} {request : SharedRead} {collection : Collection}
      (waits : state.calls call = .waiting (.read name request))
      (found : state.engine.collections.find? name = some collection)
      (valid : rejectRead collection.config request = none)
      (unwritten : ∀ other, ¬ (state.calls other).Writes name) :
      Step state none (state.move call (.reading name request))
  | read {call : I} {name : Bytes} {request : SharedRead} {collection next : Collection}
      {result : ReadResult D} (reads : state.calls call = .reading name request)
      (found : state.engine.collections.find? name = some collection)
      (done : request.perform host state.engine.allocator collection = .ok (result, next))
      (alone : next = collection ∨
        ∀ other, other ≠ call → ∀ more, state.calls other ≠ .reading name more) :
      Step state (some (.point call (.read name request) (.result result)))
        (state.put name state.engine.allocator next call
          (.holding (.read name request) (.result result)))
  | unlock {call : I} {operation : Operation} {answer : Answer D}
      (holds : state.calls call = .holding operation answer) :
      Step state none (state.move call (.answered operation answer))
  | respond {call : I} {operation : Operation} {answer : Answer D}
      (ended : state.calls call = .answered operation answer) :
      Step state (some (.respond call operation answer))
        (state.move call (.returned operation answer))

end Step

section Specification

variable {D : Type} [LinearOrder D] [OrderTop D] (host : Host D)

/-- A read of an entry. The neighbors are the nearest ones where no index chooses
among them. -/
inductive Entry.Reads (entry : Entry) : SharedRead → ReadResult D → Prop
  | found {id : RecordId} {record : RecordView} (known : entry.view.find? id = some record) :
      Reads entry (.get id) (.record (.ok record))
  | missing {id : RecordId} (unknown : entry.view.find? id = none) :
      Reads entry (.get id) (.record (.error (noSuchRecord id)))
  | count : Reads entry .count (.count entry.view.size)
  | info : Reads entry .info (.info entry.outline.info)
  | indexType : Reads entry .indexType (.indexType entry.indexType)
  | snapshotData {blob : Bytes} (blank : entry.indexType = .none → blob = []) :
      Reads entry .snapshotData
        (.snapshot ⟨entry.config, entry.indexType, recordsOf entry.view, blob⟩)
  | refused {q : List F32} {k : UInt32} {params : QueryParams} {error : Error}
      (rejected : rejectQuery entry.config q k = some error) :
      Reads entry (.query q k params) (.neighbors (.error error))
  | nearest {q : List F32} {k : UInt32} {params : QueryParams} {results : List (Neighbor D)}
      (valid : rejectQuery entry.config q k = none)
      (answers : Answers host entry.outline entry.view q k results)
      (exhaustive : entry.indexType = .none ∨ entry.view.size ≤ k.toNat →
        results = (ranking host entry.config.metric q entry.view).take k.toNat) :
      Reads entry (.query q k params) (.neighbors (.ok results))

abbrev Catalogue := OrderedMap Bytes Entry

/-- The operations one at a time, all at once each. -/
inductive Serves (catalogue : Catalogue) : Operation → Answer D → Catalogue → Prop
  | refused {name : Bytes} {dimensionality : UInt32} {metric : UInt8} {error : Error}
      (checked : Engine.checkConfig name dimensionality metric = .error error) :
      Serves catalogue (.createCollection name dimensionality metric) (.handle (.error error))
        catalogue
  | conflicted {name : Bytes} {dimensionality : UInt32} {metric : UInt8}
      {config : CollectionConfig}
      (checked : Engine.checkConfig name dimensionality metric = .ok config)
      (present : catalogue.contains name = true) :
      Serves catalogue (.createCollection name dimensionality metric)
        (.handle (.error (Engine.nameConflict name))) catalogue
  | created {name : Bytes} {dimensionality : UInt32} {metric : UInt8} {config : CollectionConfig}
      (checked : Engine.checkConfig name dimensionality metric = .ok config)
      (absent : catalogue.find? name = none) :
      Serves catalogue (.createCollection name dimensionality metric) (.handle (.ok ⟨name⟩))
        (catalogue.insert name ⟨config, .none, OrderedMap.empty⟩)
  | unknown {name : Bytes} {fault : Bool} (absent : catalogue.find? name = none) :
      Serves catalogue (.deleteCollection name fault) (.status (.error (Engine.noCollection name)))
        catalogue
  | failed {name : Bytes} (present : catalogue.contains name = true) :
      Serves catalogue (.deleteCollection name true)
        (.status (.error ⟨.deletionFailed,
          text "deletion of collection '" ++ name ++ text "' failed before completion"⟩)) catalogue
  | deleted {name : Bytes} (present : catalogue.contains name = true) :
      Serves catalogue (.deleteCollection name false) (.status (.ok ())) (catalogue.erase name)
  | found {name : Bytes} (present : catalogue.contains name = true) :
      Serves catalogue (.getCollection name) (.handle (.ok ⟨name⟩)) catalogue
  | absent {name : Bytes} (absent : catalogue.find? name = none) :
      Serves catalogue (.getCollection name) (.handle (.error (Engine.noCollection name)))
        catalogue
  | updated {name : Bytes} {update : Update} {entry next : Entry} {status : Status}
      (known : catalogue.find? name = some entry) (updates : entry.Updates update status next) :
      Serves catalogue (.update name update) (.status status) (catalogue.insert name next)
  | answered {name : Bytes} {request : SharedRead} {entry : Entry} {result : ReadResult D}
      (known : catalogue.find? name = some entry) (reads : entry.Reads host request result) :
      Serves catalogue (.read name request) (.result result) catalogue

end Specification

section Reads

variable {D : Type} [LinearOrder D] [OrderTop D] {host : Host D} {allocator : MemoryAllocator}
  {collection next : Collection} {entry : Entry}

theorem queryWith_of_ok
    {search : Index → List F32 → UInt32 → QueryParams → Run (List (Candidate D) × Index)}
    {q : List F32} {k : UInt32} {params : QueryParams} {answer : Result (List (Neighbor D))}
    (done : queryWith host search allocator collection q k params = .ok (answer, next)) :
    queryWith host (fun index q k params =>
        .ok ((search index q k params).toOption.getD ([], index))) allocator collection q k params =
      .ok (answer, next) := by
  unfold queryWith at done ⊢
  split
  · next rejected =>
      rw [rejected] at done
      exact done
  · next valid =>
      simp only [valid] at done
      split
      · next empty =>
          rw [if_pos empty] at done
          exact done
      · next some_ =>
          rw [if_neg some_] at done
          split
          · next index held =>
              simp only [held] at done
              split
              · next used =>
                  rw [if_pos used] at done
                  rcases bind_ok done with ⟨found, searched, rest⟩
                  simp only [searched]
                  exact rest
              · next unused =>
                  rw [if_neg unused] at done
                  exact done
          · next held =>
              simp only [held] at done
              exact done

theorem rejectQuery_none {config : CollectionConfig} {q : List F32} {k : UInt32}
    (valid : rejectQuery config q k = none) :
    q.length = config.dimensionality.toNat ∧ (∀ component ∈ q, component.isFinite = true) ∧
      1 ≤ k := by
  unfold rejectQuery at valid
  split at valid
  · cases valid
  · next positive =>
      split at valid
      · cases valid
      · next sized =>
          split at valid
          · cases valid
          · next finite =>
              exact ⟨not_not.mp sized, firstNonFinite_valid (not_not.mp finite),
                UInt32.not_lt.mp positive⟩

theorem Halfway.read (settled : Settled allocator collection entry) (sound : allocator.Sound)
    {request : SharedRead} {result : ReadResult D}
    (done : request.perform host allocator collection = .ok (result, next)) :
    entry.Reads host request result ∧ collection.Same next ∧ Settled allocator next entry := by
  have count : collection.recordCount = entry.view.size := by
    rw [settled.stored.counted, settled.shows.size]
  have unchanged : collection.Same collection ∧ Settled allocator collection entry :=
    ⟨Same.refl collection, settled⟩
  cases request with
  | get id =>
      rcases bind_ok done with ⟨answer, got, last⟩
      cases last
      rw [settled.shows id] at got
      cases known : entry.view.find? id with
      | none =>
          rw [known] at got
          cases got
          exact ⟨.missing known, unchanged⟩
      | some record =>
          rw [known] at got
          cases got
          exact ⟨.found known, unchanged⟩
  | count =>
      cases done
      rw [Collection.count, count]
      exact ⟨.count, unchanged⟩
  | info =>
      cases done
      have same : collection.info = entry.outline.info := by
        rw [Collection.info, count, settled.config]
        rfl
      rw [same]
      exact ⟨.info, unchanged⟩
  | indexType =>
      cases done
      rw [settled.indexType]
      exact ⟨.indexType, unchanged⟩
  | snapshotData =>
      rcases bind_ok done with ⟨data, captured, last⟩
      cases last
      rw [snapshotData_captured settled.shows] at captured
      cases captured
      rw [Collection.captured, settled.config, settled.indexType]
      refine ⟨.snapshotData ?_, unchanged⟩
      intro none
      rw [← settled.indexType] at none
      unfold Collection.indexBlob
      split
      · rw [if_neg (not_not.mpr none)]
      · rfl
  | query q k params =>
      rcases bind_ok done with ⟨⟨answer, after⟩, queried, last⟩
      cases last
      cases valid : rejectQuery collection.config q k with
      | some error =>
          simp only [Collection.query, queryWith, valid] at queried
          cases queried
          rw [settled.config] at valid
          exact ⟨.refused valid, unchanged⟩
      | none =>
          rcases rejectQuery_none valid with ⟨sized, finite, positive⟩
          rcases queryWith_answers host settled.stored settled.shows (fun index q k params =>
            (index.search host q k params).toOption.getD ([], index)) sized finite positive params
            with ⟨results, final, chosen, answers, complete⟩
          rw [queryWith_of_ok queried] at chosen
          cases chosen
          have kept : collection.Same next ∧ next.records = collection.records ∧
              next.recordCount = collection.recordCount := by
            rcases queryWith_ok queried with same | ⟨_, _, _, _, _, shape⟩
            · rw [same]
              exact ⟨Same.refl collection, rfl, rfl⟩
            · rw [shape]
              exact ⟨⟨rfl, rfl, rfl⟩, rfl, rfl⟩
          have type : next.indexType = collection.indexType := by
            rcases queryWith_ok queried with same | ⟨_, _, _, _, _, shape⟩
            · rw [same]
            · rw [shape]
          rcases kept with ⟨same, records, recordCount⟩
          have advances := settled.stored.reindexed sound settled.shows same records recordCount
          refine ⟨.nearest (by rw [← settled.config]; exact valid) ⟨?_, answers.distinct, ?_,
            answers.ascending⟩ ?_, same, ?_⟩
          · rw [answers.count, count]
            rfl
          · have exact_ := answers.exact
            rw [settled.config] at exact_
            exact exact_
          · intro plain
            rw [← settled.config]
            apply complete
            intro index _ typed less
            rcases plain with none | few
            · rw [settled.indexType] at typed
              exact absurd none typed
            · omega
          · exact {
              config := same.config.trans settled.config
              indexType := type.trans settled.indexType
              stored := advances.stored
              shows := advances.shows
              indexed := query_indexed settled.indexed queried
              staged := fun _ member => by cases member
              held := fun _ member => by cases member }

end Reads

section Tags

structure Tagged (engine : Engine) : Prop where
  sound : engine.allocator.Sound
  tags : ∀ name collection, engine.collections.find? name = some collection →
    collection.tag < engine.nextTag
  distinct : ∀ first second one other, engine.collections.find? first = some one →
    engine.collections.find? second = some other → one.tag = other.tag → first = second
  registered : ∀ offset record, engine.allocator.live.find? offset = some record →
    ∃ name collection, engine.collections.find? name = some collection ∧
      collection.tag = record.tag

theorem new_tagged (capacity : UInt64) (garbage : Nat → UInt8) :
    Tagged (Engine.new capacity garbage) where
  sound := new_sound capacity garbage
  tags _ _ found := by cases found
  distinct _ _ _ _ found := by cases found
  registered _ _ held := by cases held

variable {engine : Engine} {allocator : MemoryAllocator} {name : Bytes}
  {collection next : Collection}

theorem Tagged.put (tagged : Tagged engine)
    (found : engine.collections.find? name = some collection)
    (confined : Confined engine.allocator allocator collection next) :
    Tagged { engine with
      allocator := allocator
      collections := engine.collections.insert name next } := by
  have origin : ∀ other held, (engine.collections.insert name next).find? other = some held →
      ∃ before, engine.collections.find? other = some before ∧ held.tag = before.tag := by
    intro other held there
    rw [OrderedMap.find_insert] at there
    by_cases here : other = name
    · rw [if_pos here] at there
      cases there
      exact ⟨collection, by rw [here, found], confined.same.tag⟩
    · rw [if_neg here] at there
      exact ⟨held, there, rfl⟩
  refine ⟨confined.sound, ?_, ?_, ?_⟩
  · intro other held there
    rcases origin other held there with ⟨before, was, isTag⟩
    rw [isTag]
    exact tagged.tags other before was
  · intro first second one other isOne isOther same
    rcases origin first one isOne with ⟨one', wasOne, tagOne⟩
    rcases origin second other isOther with ⟨other', wasOther, tagOther⟩
    rw [tagOne, tagOther] at same
    exact tagged.distinct first second one' other' wasOne wasOther same
  · intro offset record held
    have after := fun other => OrderedMap.find_insert engine.collections name other next
    by_cases own : record.tag = collection.tag
    · exact ⟨name, next, by rw [after name, if_pos rfl], by rw [confined.same.tag, own]⟩
    · rcases tagged.registered offset record ((confined.frame.live offset record own).mp held) with
        ⟨other, known, there, isTag⟩
      have elsewhere : other ≠ name := by
        intro equal
        rw [equal, found, Option.some.injEq] at there
        rw [there] at own
        exact own isTag.symm
      exact ⟨other, known, by rw [after other, if_neg elsewhere]; exact there, isTag⟩

theorem Tagged.create (tagged : Tagged engine) (config : CollectionConfig)
    (absent : engine.collections.find? name = none) :
    Tagged { engine with
      collections := engine.collections.insert name (Collection.new config engine.nextTag)
      nextTag := engine.nextTag + 1 } := by
  have after := fun other =>
    OrderedMap.find_insert engine.collections name other (Collection.new config engine.nextTag)
  have old : ∀ other held, engine.collections.find? other = some held →
      held.tag ≠ engine.nextTag :=
    fun other held there => (tagged.tags other held there).ne
  refine ⟨tagged.sound, ?_, ?_, ?_⟩
  · intro other held there
    rw [after other] at there
    split at there
    · cases there
      exact Nat.lt_succ_self engine.nextTag
    · exact Nat.lt_succ_of_lt (tagged.tags other held there)
  · intro first second one other isOne isOther same
    rw [after first] at isOne
    rw [after second] at isOther
    split at isOne
    · next isFirst =>
        split at isOther
        · next isSecond => rw [isFirst, isSecond]
        · cases isOne
          exact absurd same.symm (old second other isOther)
    · split at isOther
      · cases isOther
        exact absurd same (old first one isOne)
      · exact tagged.distinct first second one other isOne isOther same
  · intro offset record held
    rcases tagged.registered offset record held with ⟨other, known, there, isTag⟩
    have elsewhere : other ≠ name := by
      intro equal
      rw [equal, absent] at there
      cases there
    exact ⟨other, known, by rw [after other, if_neg elsewhere]; exact there, isTag⟩

theorem Tagged.delete (tagged : Tagged engine)
    (found : engine.collections.find? name = some collection) :
    Tagged { engine with
      allocator := engine.allocator.releaseAll collection.tag
      collections := engine.collections.erase name } := by
  rcases releaseAll_owned tagged.sound collection.tag with ⟨sound, _, kept⟩
  have origin : ∀ other held, (engine.collections.erase name).find? other = some held →
      engine.collections.find? other = some held := by
    intro other held there
    rw [OrderedMap.find_erase] at there
    split at there
    · cases there
    · exact there
  refine ⟨sound, fun other held there => tagged.tags other held (origin other held there), ?_, ?_⟩
  · intro first second one other isOne isOther
    exact tagged.distinct first second one other (origin first one isOne)
      (origin second other isOther)
  · intro offset record held
    rcases kept offset record held with ⟨own, before⟩
    rcases tagged.registered offset record before with ⟨other, known, there, isTag⟩
    have elsewhere : other ≠ name := by
      intro equal
      rw [equal, found, Option.some.injEq] at there
      rw [there] at own
      exact own isTag.symm
    exact ⟨other, known, by rw [OrderedMap.find_erase, if_neg elsewhere]; exact there, isTag⟩

theorem Tagged.new_settled (tagged : Tagged engine) (config : CollectionConfig) :
    Settled engine.allocator (Collection.new config engine.nextTag)
      ⟨config, .none, OrderedMap.empty⟩ := by
  have unused : ∀ offset record, engine.allocator.live.find? offset = some record →
      record.tag ≠ engine.nextTag := by
    intro offset record held same
    rcases tagged.registered offset record held with ⟨other, known, there, isTag⟩
    have below := tagged.tags other known there
    omega
  exact {
    config := rfl
    indexType := rfl
    stored := by
      refine ⟨rfl, rfl, fun _ _ found => by (cases found), ⟨?_, ?_, List.nodup_nil⟩⟩
      · intro offset
        apply iff_of_false List.not_mem_nil
        rintro ⟨record, held, isTag⟩
        exact unused offset record held isTag
      · intro offset record held isTag
        exact absurd isTag (unused offset record held)
    shows := fun _ => rfl
    indexed := new_indexed config engine.nextTag
    staged := fun _ member => by cases member
    held := fun _ member => by cases member }

end Tags

section Coherence

variable {I D : Type}

/-- A registered collection, by whether a call is at work on it. -/
inductive Kept (state : ConcurrentEngine I D) (name : Bytes) (collection : Collection)
    (entry : Entry) : Prop
  | settled (still : ∀ call update phase, state.calls call ≠ .writing name update phase)
      (settled : Settled state.engine.allocator collection entry) : Kept state name collection entry
  | underway {call : I} {update : Update} {phase : Phase}
      (writes : state.calls call = .writing name update phase)
      (underway : Underway state.engine.allocator collection entry update phase) :
      Kept state name collection entry

/-- The calls respect the locks, and the collections are as the catalogue and the
calls in progress say. -/
structure Coherent (state : ConcurrentEngine I D) (catalogue : Catalogue) : Prop where
  tagged : Tagged state.engine
  exclusive : ∀ first second name, (state.calls first).Writes name →
    (state.calls second).Holds name → first = second
  used : ∀ call name, (state.calls call).Uses name →
    state.engine.collections.contains name = true
  kept : ∀ name collection, state.engine.collections.find? name = some collection →
    ∃ entry, catalogue.find? name = some entry ∧ Kept state name collection entry
  absent : ∀ name, state.engine.collections.find? name = none → catalogue.find? name = none

theorem new_coherent (capacity : UInt64) (garbage : Nat → UInt8) :
    Coherent (ConcurrentEngine.new capacity garbage : ConcurrentEngine I D) OrderedMap.empty where
  tagged := new_tagged capacity garbage
  exclusive _ _ _ writes := by cases writes
  used _ _ uses := by cases uses
  kept _ _ found := by cases found
  absent _ _ := rfl

variable {state : ConcurrentEngine I D} {catalogue : Catalogue} {call : I} {name : Bytes}

theorem Progress.Writes.holds {progress : Progress D} (writes : progress.Writes name) :
    progress.Holds name := by
  cases progress with
  | writing other update phase => exact writes
  | holding operation answer =>
      cases operation with
      | update other update =>
          have same : other = name := writes
          exact congrArg some same
      | createCollection => cases writes
      | deleteCollection => cases writes
      | getCollection => cases writes
      | read => cases writes
  | idle => cases writes
  | waiting => cases writes
  | reading => cases writes
  | answered => cases writes
  | returned => cases writes

theorem Progress.Holds.uses {progress : Progress D} (holds : progress.Holds name) :
    progress.Uses name := by
  cases progress with
  | writing => exact holds
  | reading => exact holds
  | holding => exact holds
  | idle => cases holds
  | waiting => cases holds
  | answered => cases holds
  | returned => cases holds

variable [DecidableEq I]

omit [DecidableEq I] in
theorem not_writing_of_unused {progress : Progress D} (unused : ∀ name, ¬ progress.Uses name) :
    ∀ name update phase, progress ≠ .writing name update phase := by
  intro name update phase same
  rw [same] at unused
  exact unused name rfl

theorem update_uses {calls : I → Progress D} {progress : Progress D}
    (after : ∀ name, ¬ progress.Uses name) {other : I} {target : Bytes}
    (uses : (Function.update calls call progress other).Uses target) :
    (calls other).Uses target := by
  by_cases here : other = call
  · rw [here, Function.update_self] at uses
    exact absurd uses (after target)
  · rw [Function.update_of_ne here] at uses
    exact uses

theorem update_writing {calls : I → Progress D} {progress : Progress D}
    (before : ∀ name update phase, calls call ≠ .writing name update phase)
    (after : ∀ name update phase, progress ≠ .writing name update phase) (other : I) (name : Bytes)
    (update : Update) (phase : Phase) :
    Function.update calls call progress other = .writing name update phase ↔
      calls other = .writing name update phase := by
  by_cases here : other = call
  · rw [here, Function.update_self]
    exact iff_of_false (after name update phase) (before name update phase)
  · rw [Function.update_of_ne here]

theorem Coherent.exclusive_update (coherent : Coherent state catalogue) {progress : Progress D}
    (writes : ∀ name, progress.Writes name → ∀ other, other ≠ call →
      ¬ (state.calls other).Holds name)
    (holds : ∀ name, progress.Holds name → ∀ other, other ≠ call →
      ¬ (state.calls other).Writes name) :
    ∀ first second name, (Function.update state.calls call progress first).Writes name →
      (Function.update state.calls call progress second).Holds name → first = second := by
  intro first second name isFirst isSecond
  by_cases one : first = call
  · by_cases two : second = call
    · rw [one, two]
    · rw [one, Function.update_self] at isFirst
      rw [Function.update_of_ne two] at isSecond
      exact absurd isSecond (writes name isFirst second two)
  · rw [Function.update_of_ne one] at isFirst
    by_cases two : second = call
    · rw [two, Function.update_self] at isSecond
      exact absurd isFirst (holds name isSecond first one)
    · rw [Function.update_of_ne two] at isSecond
      exact coherent.exclusive first second name isFirst isSecond

theorem Coherent.exclusive_kept (coherent : Coherent state catalogue) {progress : Progress D}
    (writes : ∀ name, progress.Writes name → (state.calls call).Writes name)
    (holds : ∀ name, progress.Holds name → (state.calls call).Holds name) :
    ∀ first second name, (Function.update state.calls call progress first).Writes name →
      (Function.update state.calls call progress second).Holds name → first = second := by
  apply coherent.exclusive_update
  · intro name isWriter other apart isHolder
    exact apart (coherent.exclusive call other name (writes name isWriter) isHolder).symm
  · intro name isHolder other apart isWriter
    exact apart (coherent.exclusive other call name isWriter (holds name isHolder))

omit [DecidableEq I] in
theorem Kept.frame {state' : ConcurrentEngine I D} {collection : Collection} {entry : Entry}
    {tag : Nat} (kept : Kept state name collection entry)
    (frame : Frame tag state.engine.allocator state'.engine.allocator) (other : collection.tag ≠ tag)
    (writers : ∀ call update phase, state'.calls call = .writing name update phase ↔
      state.calls call = .writing name update phase) :
    Kept state' name collection entry := by
  cases kept with
  | settled still settled =>
      apply Kept.settled
      · intro call update phase writes
        exact still call update phase ((writers call update phase).mp writes)
      · exact settled.frame frame other
  | @underway call update phase writes underway =>
      exact .underway ((writers call update phase).mpr writes) (underway.frame frame other)

theorem Coherent.move (coherent : Coherent state catalogue) {progress : Progress D}
    (before : ∀ name update phase, state.calls call ≠ .writing name update phase)
    (after : ∀ name update phase, progress ≠ .writing name update phase)
    (exclusive : ∀ first second name,
      (Function.update state.calls call progress first).Writes name →
        (Function.update state.calls call progress second).Holds name → first = second)
    (used : ∀ name, progress.Uses name → state.engine.collections.contains name = true) :
    Coherent (state.move call progress) catalogue where
  tagged := coherent.tagged
  exclusive := exclusive
  used := by
    intro other name uses
    by_cases here : other = call
    · rw [here, ConcurrentEngine.move_calls, Function.update_self] at uses
      exact used name uses
    · rw [ConcurrentEngine.move_calls, Function.update_of_ne here] at uses
      exact coherent.used other name uses
  kept := by
    intro name collection found
    rcases coherent.kept name collection found with ⟨entry, known, kept⟩
    exact ⟨entry, known, kept.frame (Frame.refl (collection.tag + 1) _) (by omega)
      (fun other => update_writing before after other name)⟩
  absent := coherent.absent

theorem Coherent.put (coherent : Coherent state catalogue) {collection next : Collection}
    {allocator : MemoryAllocator} {progress : Progress D} {entry : Entry} {after : Catalogue}
    (found : state.engine.collections.find? name = some collection)
    (confined : Confined state.engine.allocator allocator collection next)
    (before : ∀ other, (state.calls call).Holds other → other = name)
    (later : ∀ other, progress.Holds other → other = name)
    (uses : ∀ other, progress.Uses other → other = name)
    (exclusive : ∀ first second name,
      (Function.update state.calls call progress first).Writes name →
        (Function.update state.calls call progress second).Holds name → first = second)
    (here : after.find? name = some entry)
    (elsewhere : ∀ other, other ≠ name → after.find? other = catalogue.find? other)
    (kept : Kept (state.put name allocator next call progress) name next entry) :
    Coherent (state.put name allocator next call progress) after where
  tagged := coherent.tagged.put found confined
  exclusive := exclusive
  used := by
    intro other target use
    have known : (state.engine.collections.insert name next).contains target =
        (decide (target = name) || state.engine.collections.contains target) := by
      rw [OrderedMap.contains, OrderedMap.find_insert, OrderedMap.contains]
      by_cases own : target = name <;> simp [own]
    simp only [ConcurrentEngine.put_collections, known, Bool.or_eq_true, decide_eq_true_eq]
    by_cases own : other = call
    · rw [own, ConcurrentEngine.put_calls, Function.update_self] at use
      exact Or.inl (uses target use)
    · rw [ConcurrentEngine.put_calls, Function.update_of_ne own] at use
      exact Or.inr (coherent.used other target use)
  kept := by
    intro other held there
    rw [ConcurrentEngine.put_collections, OrderedMap.find_insert] at there
    by_cases own : other = name
    · rw [if_pos own, Option.some.injEq] at there
      rw [own, ← there]
      exact ⟨entry, here, kept⟩
    · rw [if_neg own] at there
      rw [elsewhere other own]
      rcases coherent.kept other held there with ⟨known, isKnown, same⟩
      refine ⟨known, isKnown, same.frame confined.frame ?_ ?_⟩
      · intro equal
        exact own (coherent.tagged.distinct other name held collection there found equal)
      · intro writer update phase
        by_cases isCall : writer = call
        · rw [isCall, ConcurrentEngine.put_calls, Function.update_self]
          apply iff_of_false
          · intro same
            rw [same] at later
            exact own (later other rfl)
          · intro same
            rw [same] at before
            exact own (before other rfl)
        · rw [ConcurrentEngine.put_calls, Function.update_of_ne isCall]
  absent := by
    intro other missing
    rw [ConcurrentEngine.put_collections, OrderedMap.find_insert] at missing
    by_cases own : other = name
    · rw [if_pos own] at missing
      cases missing
    · rw [if_neg own] at missing
      rw [elsewhere other own]
      exact coherent.absent other missing

omit [DecidableEq I] in
theorem Coherent.known (coherent : Coherent state catalogue)
    (present : state.engine.collections.contains name = true) :
    catalogue.contains name = true := by
  rcases (OrderedMap.contains_iff _ _).mp present with ⟨collection, found⟩
  rcases coherent.kept name collection found with ⟨entry, known, _⟩
  exact (OrderedMap.contains_iff _ _).mpr ⟨entry, known⟩

omit [DecidableEq I] in
theorem Coherent.writer (coherent : Coherent state catalogue) {collection : Collection}
    {update : Update} {phase : Phase}
    (writes : state.calls call = .writing name update phase)
    (found : state.engine.collections.find? name = some collection) :
    ∃ entry, catalogue.find? name = some entry ∧
      Underway state.engine.allocator collection entry update phase := by
  rcases coherent.kept name collection found with ⟨entry, known, kept⟩
  refine ⟨entry, known, ?_⟩
  cases kept with
  | settled still settled => exact absurd writes (still call update phase)
  | @underway other update' phase' writes' underway =>
      have same : other = call := by
        apply coherent.exclusive other call name
        · rw [writes']
          rfl
        · rw [writes]
          rfl
      rw [same, writes] at writes'
      cases writes'
      exact underway

omit [DecidableEq I] in
theorem Coherent.settled (coherent : Coherent state catalogue) {collection : Collection}
    (found : state.engine.collections.find? name = some collection)
    (unwritten : ∀ other, ¬ (state.calls other).Writes name) :
    ∃ entry, catalogue.find? name = some entry ∧
      Settled state.engine.allocator collection entry := by
  rcases coherent.kept name collection found with ⟨entry, known, kept⟩
  refine ⟨entry, known, ?_⟩
  cases kept with
  | settled still settled => exact settled
  | @underway other update phase writes underway =>
      exact absurd (by rw [writes]; rfl) (unwritten other)

theorem Coherent.create (coherent : Coherent state catalogue) {progress : Progress D}
    {config : CollectionConfig} (absent : state.engine.collections.find? name = none)
    (before : ∀ name update phase, state.calls call ≠ .writing name update phase)
    (after : ∀ name, ¬ progress.Uses name) :
    Coherent ⟨{ state.engine with
        collections :=
          state.engine.collections.emplace name (Collection.new config state.engine.nextTag)
        nextTag := state.engine.nextTag + 1 }, Function.update state.calls call progress⟩
      (catalogue.insert name ⟨config, .none, OrderedMap.empty⟩) := by
  rw [OrderedMap.emplace_of_absent _ _ _ absent]
  have used : ∀ other target, (Function.update state.calls call progress other).Uses target →
      (state.calls other).Uses target := fun _ _ uses => update_uses after uses
  have writers := update_writing before (not_writing_of_unused after)
  refine ⟨coherent.tagged.create config absent, ?_, ?_, ?_, ?_⟩
  · exact coherent.exclusive_kept (fun name writes => absurd writes.holds.uses (after name))
      (fun name holds => absurd holds.uses (after name))
  · intro other target uses
    rw [OrderedMap.contains, OrderedMap.find_insert]
    split
    · rfl
    · exact coherent.used other target (used other target uses)
  · intro other collection there
    simp only [OrderedMap.find_insert] at there ⊢
    by_cases here : other = name
    · rw [if_pos here] at there ⊢
      cases there
      refine ⟨_, rfl, .settled ?_ (coherent.tagged.new_settled config)⟩
      intro writer update phase writes
      have uses := coherent.used writer other
        (by rw [(writers writer other update phase).mp writes]; rfl)
      rw [here, OrderedMap.contains, absent] at uses
      cases uses
    · rw [if_neg here] at there ⊢
      rcases coherent.kept other collection there with ⟨entry, known, kept⟩
      exact ⟨entry, known, kept.frame (Frame.refl (collection.tag + 1) _) (by omega)
        (fun writer => writers writer other)⟩
  · intro other missing
    simp only [OrderedMap.find_insert] at missing ⊢
    by_cases here : other = name
    · rw [if_pos here] at missing
      cases missing
    · rw [if_neg here] at missing ⊢
      exact coherent.absent other missing

theorem Coherent.delete (coherent : Coherent state catalogue) {progress : Progress D}
    {collection : Collection} (found : state.engine.collections.find? name = some collection)
    (before : ∀ name update phase, state.calls call ≠ .writing name update phase)
    (after : ∀ name, ¬ progress.Uses name) (unused : ∀ other, ¬ (state.calls other).Uses name) :
    Coherent ⟨{ state.engine with
        allocator := state.engine.allocator.releaseAll collection.tag
        collections := state.engine.collections.erase name },
        Function.update state.calls call progress⟩ (catalogue.erase name) := by
  rcases releaseAll_owned coherent.tagged.sound collection.tag with ⟨_, frame, _⟩
  have used : ∀ other target, (Function.update state.calls call progress other).Uses target →
      (state.calls other).Uses target := fun _ _ uses => update_uses after uses
  have writers := update_writing before (not_writing_of_unused after)
  refine ⟨coherent.tagged.delete found, ?_, ?_, ?_, ?_⟩
  · exact coherent.exclusive_kept (fun name writes => absurd writes.holds.uses (after name))
      (fun name holds => absurd holds.uses (after name))
  · intro other target uses
    have kept := used other target uses
    rw [OrderedMap.contains, OrderedMap.find_erase]
    split
    · next here =>
        rw [here] at kept
        exact absurd kept (unused other)
    · exact coherent.used other target kept
  · intro other held there
    simp only [OrderedMap.find_erase] at there ⊢
    by_cases here : other = name
    · rw [if_pos here] at there
      cases there
    · rw [if_neg here] at there ⊢
      rcases coherent.kept other held there with ⟨entry, known, kept⟩
      refine ⟨entry, known, kept.frame frame ?_ (fun writer => writers writer other)⟩
      intro equal
      exact here (coherent.tagged.distinct other name held collection there found equal)
  · intro other missing
    simp only [OrderedMap.find_erase] at missing ⊢
    by_cases here : other = name
    · rw [if_pos here]
    · rw [if_neg here] at missing ⊢
      exact coherent.absent other missing

end Coherence

section Steps

variable {I D : Type} [DecidableEq I] [LinearOrder D] [OrderTop D] {host : Host D}
  {state after : ConcurrentEngine I D} {catalogue : Catalogue}

def stages (state : ConcurrentEngine I D) (call : I) : Stage Operation (Answer D) :=
  (state.calls call).stage

omit [LinearOrder D] [OrderTop D] in
theorem stage_update (calls : I → Progress D) (call : I) (progress : Progress D) :
    (fun other => (Function.update calls call progress other).stage) =
      Function.update (fun other => (calls other).stage) call progress.stage := by
  funext other
  by_cases here : other = call
  · rw [here, Function.update_self, Function.update_self]
  · rw [Function.update_of_ne here, Function.update_of_ne here]

theorem Step.moves {label : Label I Operation (Answer D)} (step : Step host state (some label) after) :
    label.Moves (stages state) (stages after) := by
  have stands : ∀ {call : I} {progress : Progress D}, state.calls call = progress →
      stages state call = progress.stage := by
    intro call progress is
    rw [stages, is]
  cases step with
  | invoke unused _ => exact ⟨stands unused, stage_update _ _ _⟩
  | create waits _ => exact ⟨stands waits, stage_update _ _ _⟩
  | delete waits _ _ => exact ⟨stands waits, stage_update _ _ _⟩
  | find waits => exact ⟨stands waits, stage_update _ _ _⟩
  | reject waits _ _ => exact ⟨stands waits, stage_update _ _ _⟩
  | refuse waits _ _ => exact ⟨stands waits, stage_update _ _ _⟩
  | finish writes _ _ => exact ⟨stands writes, stage_update _ _ _⟩
  | read reads _ _ _ => exact ⟨stands reads, stage_update _ _ _⟩
  | respond ended => exact ⟨stands ended, stage_update _ _ _⟩

theorem Step.stays (step : Step host state none after) : stages after = stages state := by
  have same : ∀ {call : I} {progress : Progress D},
      progress.stage = (state.calls call).stage →
        (fun other => (Function.update state.calls call progress other).stage) = stages state := by
    intro call progress is
    rw [stage_update, is]
    exact Function.update_eq_self call (stages state)
  cases step with
  | lock waits _ _ _ => exact same (by rw [waits]; rfl)
  | advance writes _ _ _ => exact same (by rw [writes]; rfl)
  | share waits _ _ _ => exact same (by rw [waits]; rfl)
  | unlock holds => exact same (by rw [holds]; rfl)

omit [LinearOrder D] [OrderTop D] [DecidableEq I] in
theorem not_writing {call : I} {progress : Progress D} (stands : state.calls call = progress)
    (other : ∀ name update phase, progress ≠ .writing name update phase) :
    ∀ name update phase, state.calls call ≠ .writing name update phase := by
  intro name update phase writes
  exact other name update phase (stands.symm.trans writes)

theorem Step.invoke_coherent {call : I} {operation : Operation} (coherent : Coherent state catalogue)
    (step : Step host state (some (.invoke call operation)) after) : Coherent after catalogue := by
  cases step with
  | invoke unused registered =>
      apply coherent.move
      · exact not_writing unused (fun _ _ _ same => by cases same)
      · exact fun _ _ _ same => by cases same
      · exact coherent.exclusive_kept (fun _ writes => by cases writes)
          (fun _ holds => by cases holds)
      · exact registered

theorem Step.respond_coherent {call : I} {operation : Operation} {answer : Answer D}
    (coherent : Coherent state catalogue)
    (step : Step host state (some (.respond call operation answer)) after) :
    Coherent after catalogue := by
  cases step with
  | respond ended =>
      apply coherent.move
      · exact not_writing ended (fun _ _ _ same => by cases same)
      · exact fun _ _ _ same => by cases same
      · exact coherent.exclusive_kept (fun _ writes => by cases writes)
          (fun _ holds => by cases holds)
      · exact fun _ uses => by cases uses

omit [LinearOrder D] [OrderTop D] in
theorem Coherent.answer {call : I} {operation waiting : Operation} {answer : Answer D}
    (coherent : Coherent state catalogue) (waits : state.calls call = .waiting waiting) :
    Coherent (state.move call (.answered operation answer)) catalogue := by
  apply coherent.move
  · exact not_writing waits (fun _ _ _ same => by cases same)
  · exact fun _ _ _ same => by cases same
  · exact coherent.exclusive_kept (fun _ writes => by cases writes)
      (fun _ holds => by cases holds)
  · exact fun _ uses => by cases uses

theorem insert_found {V : Type} {map : OrderedMap Bytes V} {name : Bytes} {value : V}
    (found : map.find? name = some value) : map.insert name value = map := by
  apply OrderedMap.ext_find
  intro other
  rw [OrderedMap.find_insert]
  by_cases here : other = name
  · rw [if_pos here, here, found]
  · rw [if_neg here]

omit [LinearOrder D] [OrderTop D] in
theorem put_same {name : Bytes} {collection : Collection} (call : I) (progress : Progress D)
    (found : state.engine.collections.find? name = some collection) :
    state.put name state.engine.allocator collection call progress = state.move call progress := by
  rw [ConcurrentEngine.put, insert_found found, ConcurrentEngine.move]

theorem Step.silent_coherent (coherent : Coherent state catalogue)
    (step : Step host state none after) : Coherent after catalogue := by
  cases step with
  | @lock call name update collection waits found valid free =>
      have unwritten : ∀ other, ¬ (state.calls other).Writes name :=
        fun other writes => free other writes.holds
      rcases coherent.settled found unwritten with ⟨entry, known, settled⟩
      rw [← put_same call _ found]
      apply coherent.put found (Confined.refl coherent.tagged.sound collection)
      · intro other holds
        rw [waits] at holds
        cases holds
      · exact fun other holds => holds.symm
      · exact fun other uses => uses.symm
      · apply coherent.exclusive_update
        · intro other writes another _
          have same : name = other := writes
          rw [← same]
          exact free another
        · intro other holds another _ writes
          have same : name = other := holds
          rw [← same] at writes
          exact unwritten another writes
      · exact known
      · exact fun _ _ => rfl
      · rw [settled.config] at valid
        exact .underway (Function.update_self _ _ _) ⟨valid, settled⟩
  | @advance call name update phase later collection next allocator writes found done going =>
      rcases coherent.writer writes found with ⟨entry, known, underway⟩
      rcases advance_spec host coherent.tagged.sound underway with
        ⟨allocator', next', later', moved, confined, outcome, _⟩
      rw [done] at moved
      cases moved
      have goes : Underway allocator next entry update later := by
        cases outcome with
        | answered => exact absurd rfl (going _)
        | going underway => exact underway
      have own : ∀ other, (state.calls call).Holds other → other = name := by
        intro other holds
        rw [writes] at holds
        exact holds.symm
      apply coherent.put found confined own
      · exact fun other holds => holds.symm
      · exact fun other uses => uses.symm
      · apply coherent.exclusive_kept
        · intro other same
          rw [writes]
          exact same
        · intro other same
          rw [writes]
          exact same
      · exact known
      · exact fun _ _ => rfl
      · exact .underway (Function.update_self _ _ _) goes
  | @share call name request collection waits found valid unwritten =>
      apply coherent.move
      · exact not_writing waits (fun _ _ _ same => by cases same)
      · exact fun _ _ _ same => by cases same
      · apply coherent.exclusive_update
        · intro other writes
          cases writes
        · intro other holds another _ writes
          have same : name = other := holds
          rw [← same] at writes
          exact unwritten another writes
      · intro other uses
        have same : name = other := uses
        rw [← same]
        exact (OrderedMap.contains_iff _ _).mpr ⟨collection, found⟩
  | @unlock call operation answer holds =>
      apply coherent.move
      · exact not_writing holds (fun _ _ _ same => by cases same)
      · exact fun _ _ _ same => by cases same
      · exact coherent.exclusive_kept (fun _ writes => by cases writes)
          (fun _ holds => by cases holds)
      · exact fun _ uses => by cases uses

/-- One case for each kind of step with a point: the catalogue makes it too. -/
theorem Step.point_coherent {call : I} {operation : Operation} {answer : Answer D}
    (coherent : Coherent state catalogue)
    (step : Step host state (some (.point call operation answer)) after) :
    ∃ next, Serves host catalogue operation answer next ∧ Coherent after next := by
  cases step with
  | @create _ name dimensionality metric created later waits done =>
      have idle := not_writing waits (fun _ _ _ same => by cases same)
      unfold Engine.createCollection at done
      split at done
      · next checked =>
          cases done
          exact ⟨catalogue, .refused checked, coherent.answer waits⟩
      · next config checked =>
          split at done
          · next present =>
              cases done
              exact ⟨catalogue, .conflicted checked (coherent.known present),
                coherent.answer waits⟩
          · next fresh =>
              cases done
              have missing := OrderedMap.absent_of_not_contains fresh
              exact ⟨_, .created checked (coherent.absent name missing),
                coherent.create missing idle (fun _ uses => by cases uses)⟩
  | @delete _ name fault status later waits unused done =>
      have idle := not_writing waits (fun _ _ _ same => by cases same)
      unfold Engine.deleteCollection at done
      split at done
      · next missing =>
          cases done
          exact ⟨catalogue, .unknown (coherent.absent name missing), coherent.answer waits⟩
      · next collection found =>
          have present := coherent.known ((OrderedMap.contains_iff _ _).mpr ⟨collection, found⟩)
          split at done
          · next failing =>
              cases done
              rw [failing]
              exact ⟨catalogue, .failed present, coherent.answer waits⟩
          · next sure =>
              cases done
              rw [Bool.eq_false_of_not_eq_true sure]
              exact ⟨_, .deleted present,
                coherent.delete found idle (fun _ uses => by cases uses) (unused rfl)⟩
  | @find _ name waits =>
      refine ⟨catalogue, ?_, coherent.answer waits⟩
      unfold Engine.getCollection
      cases found : state.engine.collections.find? name with
      | none => exact .absent (coherent.absent name found)
      | some collection =>
          exact .found (coherent.known ((OrderedMap.contains_iff _ _).mpr ⟨collection, found⟩))
  | @reject _ name update collection error waits found rejected =>
      rcases coherent.kept name collection found with ⟨entry, known, kept⟩
      have config : collection.config = entry.config := by
        cases kept with
        | settled _ settled => exact settled.config
        | underway _ underway => exact underway.config
      rw [config] at rejected
      have why : entry.reject update = some error := by
        cases update with
        | insert => exact rejected
        | insertBatch => exact rejected
        | remove => cases rejected
        | buildIndex => cases rejected
      have same : catalogue.insert name entry = catalogue := insert_found known
      have serves : Serves host catalogue (.update name update) (.status (.error error))
          (catalogue.insert name entry) := .updated known (.rejected why)
      rw [same] at serves
      exact ⟨catalogue, serves, coherent.answer waits⟩
  | @refuse _ name q k params collection error waits found rejected =>
      rcases coherent.kept name collection found with ⟨entry, known, kept⟩
      have config : collection.config = entry.config := by
        cases kept with
        | settled _ settled => exact settled.config
        | underway _ underway => exact underway.config
      rw [config] at rejected
      exact ⟨catalogue, .answered known (.refused rejected), coherent.answer waits⟩
  | @finish _ name update phase collection next allocator status writes found done =>
      rcases coherent.writer writes found with ⟨entry, known, underway⟩
      rcases advance_spec host coherent.tagged.sound underway with
        ⟨allocator', next', later', moved, confined, outcome, _⟩
      rw [done] at moved
      cases moved
      have own : ∀ other, (state.calls call).Holds other → other = name := by
        intro other holds
        rw [writes] at holds
        exact holds.symm
      have target : ∀ other, (Operation.update name update).target = some other → other = name :=
        fun other same => (Option.some.inj same).symm
      cases outcome with
      | going underway => exact absurd underway.2 not_false
      | @answered _ entry' updates settled =>
          refine ⟨catalogue.insert name entry', .updated known updates, ?_⟩
          apply coherent.put found confined own
          · exact target
          · exact target
          · apply coherent.exclusive_kept
            · intro other same
              rw [writes]
              exact same
            · intro other holds
              rw [writes]
              exact (target other holds).symm
          · rw [OrderedMap.find_insert, if_pos rfl]
          · intro other apart
            rw [OrderedMap.find_insert, if_neg apart]
          · refine .settled (fun other update' phase' writes' => ?_) settled
            rw [ConcurrentEngine.put_calls] at writes'
            by_cases here : other = call
            · rw [here, Function.update_self] at writes'
              cases writes'
            · rw [Function.update_of_ne here] at writes'
              apply here
              apply coherent.exclusive other call name
              · rw [writes']
                rfl
              · rw [writes]
                rfl
  | @read _ name request collection next result reads found done alone =>
      have shares : (state.calls call).Holds name := by
        rw [reads]
        rfl
      have unwritten : ∀ other, ¬ (state.calls other).Writes name := by
        intro other writes
        have same := coherent.exclusive other call name writes shares
        rw [same, reads] at writes
        cases writes
      rcases coherent.settled found unwritten with ⟨entry, known, settled⟩
      rcases settled.read coherent.tagged.sound done with ⟨told, same, later⟩
      have target : ∀ other, (Operation.read name request).target = some other → other = name :=
        fun other same => (Option.some.inj same).symm
      refine ⟨catalogue, .answered known told, ?_⟩
      apply coherent.put found ⟨coherent.tagged.sound, Frame.refl _ _, same⟩
      · intro other holds
        rw [reads] at holds
        exact holds.symm
      · exact target
      · exact target
      · apply coherent.exclusive_kept
        · intro other writes
          cases writes
        · intro other holds
          rw [target other holds]
          exact shares
      · exact known
      · exact fun _ _ => rfl
      · refine .settled (fun other update phase writes => ?_) later
        rw [ConcurrentEngine.put_calls] at writes
        by_cases here : other = call
        · rw [here, Function.update_self] at writes
          cases writes
        · rw [Function.update_of_ne here] at writes
          exact unwritten other (by rw [writes]; rfl)

theorem step_follows (host : Host D) :
    Follows (Step host) (Serves host) (Coherent : ConcurrentEngine I D → Catalogue → Prop)
      stages where
  silent coherent step := ⟨step.silent_coherent coherent, step.stays⟩
  stages _ step := step.moves
  invoke coherent step := step.invoke_coherent coherent
  point coherent step := step.point_coherent coherent
  respond coherent step := step.respond_coherent coherent

end Steps

section Runs

variable {I D : Type} [DecidableEq I] [LinearOrder D] [OrderTop D] {host : Host D}
  {capacity : UInt64} {garbage : Nat → UInt8} {trace : List (Label I Operation (Answer D))}
  {final : ConcurrentEngine I D}

theorem overlap_runs : ∃ (trace : List (Label (Fin 3) Operation (Answer (WithTop Nat))))
    (final : ConcurrentEngine (Fin 3) (WithTop Nat)),
    Executes (Step (ExactLine.host [])) (ConcurrentEngine.new 256 (fun _ => 0)) trace final ∧
      final.calls 1 = .writing [97] (.insert [1] [0] none)
        (.copying [] ⟨.arena 0, 4⟩ ⟨[1], [0], none⟩ []) := by
  have first := Executes.labelled .nil
    (show Step (ExactLine.host []) (ConcurrentEngine.new 256 (fun _ => 0))
      (some (.invoke (0 : Fin 3) (.createCollection [97] 1 0))) _ from
      .invoke rfl (fun _ named => by cases named))
  have second := first.labelled (.create (Function.update_self _ _ _) rfl)
  have third := second.labelled (.respond (Function.update_self _ _ _))
  have fourth := third.labelled
    (show Step _ _ (some (.invoke 1 (.update [97] (.insert [1] [0] none)))) _ from
      .invoke rfl (by
        intro name isName
        cases isName
        rfl))
  have fifth := fourth.labelled
    (show Step _ _ (some (.invoke 2 (.read [97] .count))) _ from
      .invoke rfl (by
        intro name isName
        cases isName
        rfl))
  have sixth := fifth.silent
    (show Step _ _ none (ConcurrentEngine.move _ 1
        (.writing [97] (.insert [1] [0] none) .started)) from
      .lock rfl rfl (by decide) (by
        intro other holds
        fin_cases other <;> cases holds))
  have seventh := sixth.silent
    (show Step _ _ none (ConcurrentEngine.put _ [97] _ _ 1
        (.writing [97] (.insert [1] [0] none) (.staging [] [⟨[1], [0], none⟩]))) from
      .advance rfl rfl rfl (fun _ same => by cases same))
  have eighth := seventh.silent
    (show Step _ _ none (ConcurrentEngine.put _ [97] _ _ 1
        (.writing [97] (.insert [1] [0] none)
          (.copying [] ⟨.arena 0, 4⟩ ⟨[1], [0], none⟩ []))) from
      .advance rfl rfl rfl (fun _ same => by cases same))
  exact ⟨_, _, eighth, rfl⟩

/-- Whatever the interleaving, the callers see operations that happen one at a
time, each all at once between its call and its return. -/
theorem calls_linearizable
    (run : Executes (Step host) (ConcurrentEngine.new capacity garbage) trace final) :
    ∃ (order : List (Completed I Operation (Answer D))) (catalogue : Catalogue),
      Linearization (Serves host) OrderedMap.empty (history trace) order catalogue ∧
      (∀ name, final.engine.collections.find? name = none → catalogue.find? name = none) ∧
      ∀ name collection, final.engine.collections.find? name = some collection →
        (∀ call, ¬ (final.calls call).Writes name) →
          ∃ entry, catalogue.find? name = some entry ∧ collection.config = entry.config ∧
            collection.indexType = entry.indexType ∧
            collection.Shows final.engine.allocator entry.view := by
  rcases (step_follows host).linearizable (new_coherent capacity garbage) (fun _ => rfl) run with
    ⟨catalogue, coherent, linearization⟩
  refine ⟨points trace, catalogue, linearization, coherent.absent, ?_⟩
  intro name collection found unwritten
  rcases coherent.settled found unwritten with ⟨entry, known, settled⟩
  exact ⟨entry, known, settled.config, settled.indexType, settled.shows⟩

/-- A name is taken, an insertion under it is halfway and a count waits for it. -/
theorem calls_linearizable_of_overlap :
    ∃ (trace : List (Label (Fin 3) Operation (Answer (WithTop Nat))))
      (final : ConcurrentEngine (Fin 3) (WithTop Nat)),
      Executes (Step (ExactLine.host [])) (ConcurrentEngine.new 256 (fun _ => 0)) trace final ∧
      ∃ order catalogue, Linearization (Serves (ExactLine.host [])) OrderedMap.empty
        (history trace) order catalogue := by
  rcases overlap_runs with ⟨trace, final, run, _⟩
  rcases calls_linearizable run with ⟨order, catalogue, linearization, _⟩
  exact ⟨trace, final, run, order, catalogue, linearization⟩

theorem run_coherent
    (run : Executes (Step host) (ConcurrentEngine.new capacity garbage) trace final) :
    ∃ catalogue, Coherent final catalogue := by
  rcases (step_follows host).executes (new_coherent capacity garbage) (fun _ => rfl) run with
    ⟨catalogue, coherent, _⟩
  exact ⟨catalogue, coherent⟩

omit [DecidableEq I] [LinearOrder D] [OrderTop D] in
/-- With no call at work on any collection, the memory is accounted for as it is
after operations one at a time. -/
theorem Coherent.owned {catalogue : Catalogue} (coherent : Coherent final catalogue)
    (unwritten : ∀ call name, ¬ (final.calls call).Writes name) : final.engine.Owned where
  sound := coherent.tagged.sound
  stored name collection found := by
    rcases coherent.settled found (fun call => unwritten call name) with ⟨entry, _, settled⟩
    exact settled.stored
  tags := coherent.tagged.tags
  distinct := coherent.tagged.distinct
  registered := coherent.tagged.registered

/-- At every moment the blocks of a collection are those of its records and those
of the call at work on it. -/
theorem blocks_accounted
    (run : Executes (Step host) (ConcurrentEngine.new capacity garbage) trace final) :
    final.engine.allocator.ignoredReleases = 0 ∧
      (∀ offset record, final.engine.allocator.live.find? offset = some record →
        ∃ name collection, final.engine.collections.find? name = some collection ∧
          collection.tag = record.tag) ∧
      (∀ name collection call update phase,
        final.engine.collections.find? name = some collection →
        final.calls call = .writing name update phase →
          final.engine.allocator.statsOf collection.tag =
            ⟨collection.vectorBytes * (Engine.arenaBacked collection + phase.blocks.length),
              Engine.arenaBacked collection + phase.blocks.length⟩) ∧
      ((∀ call name, ¬ (final.calls call).Writes name) → final.engine.Attributed) := by
  rcases run_coherent run with ⟨catalogue, coherent⟩
  refine ⟨coherent.tagged.sound.released, coherent.tagged.registered, ?_,
    fun unwritten => (coherent.owned unwritten).attributed⟩
  intro name collection call update phase found writes
  rcases coherent.writer writes found with ⟨entry, _, underway⟩
  rcases underway.stored with ⟨loose, isLoose, stored⟩
  rw [stored.holds.statsOf coherent.tagged.sound, Engine.arenaBacked_eq, isLoose,
    List.length_append, Concurrent.blocksOf, List.length_map]

theorem blocks_accounted_of_overlap :
    ∃ (trace : List (Label (Fin 3) Operation (Answer (WithTop Nat))))
      (final : ConcurrentEngine (Fin 3) (WithTop Nat)),
      Executes (Step (ExactLine.host [])) (ConcurrentEngine.new 256 (fun _ => 0)) trace final ∧
      final.calls 1 = .writing [97] (.insert [1] [0] none)
        (.copying [] ⟨.arena 0, 4⟩ ⟨[1], [0], none⟩ []) ∧
      ∀ collection, final.engine.collections.find? [97] = some collection →
        final.engine.allocator.statsOf collection.tag =
          ⟨collection.vectorBytes * (Engine.arenaBacked collection + 1),
            Engine.arenaBacked collection + 1⟩ := by
  rcases overlap_runs with ⟨trace, final, run, writes⟩
  refine ⟨trace, final, run, writes, ?_⟩
  intro collection found
  exact (blocks_accounted run).2.2.1 [97] collection 1 _ _ found writes

/-- A call that has its collection goes on whatever the others do, and is done
after as many steps of its own as its phase says. -/
theorem writer_progresses
    (run : Executes (Step host) (ConcurrentEngine.new capacity garbage) trace final) {call : I}
    {name : Bytes} {update : Update} {phase : Phase}
    (writes : final.calls call = .writing name update phase) :
    ∃ label after, Step host final label after ∧
      ((∃ status, label = some (.point call (.update name update) (.status status)) ∧
          after.calls call = .holding (.update name update) (.status status)) ∨
        ∃ later, label = none ∧ after.calls call = .writing name update later ∧
          later.work update < phase.work update) := by
  rcases run_coherent run with ⟨catalogue, coherent⟩
  have uses := coherent.used call name (by rw [writes]; rfl)
  rcases (OrderedMap.contains_iff _ _).mp uses with ⟨collection, found⟩
  rcases coherent.writer writes found with ⟨entry, _, underway⟩
  rcases advance_spec host coherent.tagged.sound underway with
    ⟨allocator, next, later, done, _, outcome, less⟩
  cases outcome with
  | @answered status _ _ _ =>
      exact ⟨_, _, .finish writes found done, .inl ⟨status, rfl, Function.update_self _ _ _⟩⟩
  | going underway =>
      have going : ∀ status, later ≠ .answered status := by
        intro status same
        rw [same] at underway
        exact underway.2
      exact ⟨_, _, .advance writes found done going,
        .inr ⟨later, rfl, Function.update_self _ _ _, less⟩⟩

theorem writer_progresses_of_overlap :
    ∃ (final : ConcurrentEngine (Fin 3) (WithTop Nat))
      (label : Option (Label (Fin 3) Operation (Answer (WithTop Nat))))
      (after : ConcurrentEngine (Fin 3) (WithTop Nat)),
      final.calls 1 = .writing [97] (.insert [1] [0] none)
        (.copying [] ⟨.arena 0, 4⟩ ⟨[1], [0], none⟩ []) ∧
      Step (ExactLine.host []) final label after := by
  rcases overlap_runs with ⟨trace, final, run, writes⟩
  rcases writer_progresses run writes with ⟨label, after, step, _⟩
  exact ⟨final, label, after, writes, step⟩

end Runs

end VectorVault.Concurrent
