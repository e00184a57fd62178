import VectorVault.DurableStore

/-! Engines one after the other over the same files.

Each command is a transaction of the store. What an engine saved, a later one loads,
and in between it is nowhere but in its file. -/

namespace VectorVault

open MemoryAllocator Collection PersistenceManager

namespace Concurrent

section Operations

variable {D : Type} [FloatOrder D] {host : Host D} {allocator allocator' : MemoryAllocator}
  {collection next : Collection} {entry : Entry} {status : Status}

theorem commitAll_type (pairs : List (RecordInput × Block))
    (done : commitAll host pairs allocator collection = .ok (allocator', next)) :
    next.indexType = collection.indexType := by
  induction pairs generalizing allocator collection with
  | nil =>
      cases done
      rfl
  | cons pair rest ih =>
      rcases bind_ok done with ⟨⟨released, committed⟩, step, later⟩
      exact (ih later).trans (commit_ok step).2.2.2.1

theorem settled_of_advances {after : Entry}
    (advances : Advances [] allocator allocator' collection next after.view)
    (config : collection.config = after.config) (indexType : next.indexType = after.indexType)
    (indexed : next.Indexed after.view) : Settled allocator' next after where
  config := advances.same.config.trans config
  indexType := indexType
  stored := advances.stored
  shows := advances.shows
  indexed := indexed
  staged := fun _ member => by cases member
  held := fun _ member => by cases member

theorem Halfway.insert (sound : allocator.Sound) (settled : Settled allocator collection entry)
    {id : RecordId} {vec : List F32} {metadata : Option Metadata}
    (done : collection.insert host allocator id vec metadata = .ok (status, allocator', next)) :
    Confined allocator allocator' collection next ∧
      ∃ after, entry.Updates (.insert id vec metadata) status after ∧
        Settled allocator' next after := by
  have advances := insert_advances sound settled.stored settled.shows done
  rcases insert_total host allocator settled.indexed id vec metadata with
    ⟨_, _, _, other, indexed⟩
  rw [done] at other
  cases other
  refine ⟨⟨advances.sound, advances.frame, advances.same⟩, ?_⟩
  cases valid : rejectInsert collection.config id vec with
  | some error =>
      simp only [Collection.insert, valid] at done
      cases done
      rw [settled.config] at valid
      exact ⟨entry, .rejected valid, settled⟩
  | none =>
      simp only [Collection.insert, valid] at done
      rw [settled.config] at valid
      split at done
      · next refused =>
          cases done
          exact ⟨entry, .exhausted valid trivial (allocate_category refused), settled⟩
      · rcases bind_ok done with ⟨⟨released, committed⟩, step, result⟩
        cases result
        exact ⟨entry.apply (.insert id vec metadata), .made valid,
          settled_of_advances advances settled.config
            ((commit_ok step).2.2.2.1.trans settled.indexType) indexed⟩

theorem Halfway.insertBatch (sound : allocator.Sound)
    (settled : Settled allocator collection entry) {records : List RecordInput}
    (done : collection.insertBatch host allocator records = .ok (status, allocator', next)) :
    Confined allocator allocator' collection next ∧
      ∃ after, entry.Updates (.insertBatch records) status after ∧
        Settled allocator' next after := by
  have advances := insertBatch_advances sound settled.stored settled.shows done
  rcases insertBatch_total host allocator settled.indexed records with ⟨_, _, _, other, indexed⟩
  rw [done] at other
  cases other
  refine ⟨⟨advances.sound, advances.frame, advances.same⟩, ?_⟩
  cases valid : rejectBatch collection.config records with
  | some error =>
      simp only [Collection.insertBatch, valid] at done
      cases done
      rw [settled.config] at valid
      exact ⟨entry, .rejected valid, settled⟩
  | none =>
      simp only [Collection.insertBatch, valid] at done
      rw [settled.config] at valid
      split at done
      · next failed =>
          cases done
          exact ⟨entry, .exhausted valid trivial (stage_category failed),
            settled_of_advances advances settled.config settled.indexType indexed⟩
      · rcases bind_ok done with ⟨⟨released, committed⟩, step, result⟩
        cases result
        exact ⟨entry.apply (.insertBatch records), .made valid,
          settled_of_advances advances settled.config
            ((commitAll_type _ step).trans settled.indexType) indexed⟩

end Operations

end Concurrent

open Concurrent

namespace Durable

section Steps

variable {D : Type} [LinearOrder D] [OrderTop D] {host : Host D} {world after : World}
  {store : Store} {command : Command} {status : Status} {name path : Bytes}

theorem onHandle_transacts (holds : Holds world store) (targets : target? command = some name)
    (owned : after.engine.Owned) (configured : after.engine.Configured)
    {operation : MemoryAllocator → Collection → Run (Status × MemoryAllocator × Collection)}
    (done : world.onHandle name operation = .ok (status, after))
    (operates : ∀ collection entry allocator next, store.collections.find? name = some entry →
      Settled world.engine.allocator collection entry →
      operation world.engine.allocator collection = .ok (status, allocator, next) →
      Confined world.engine.allocator allocator collection next ∧
        ∃ entry' collections', Settled allocator next entry' ∧
          collections'.find? name = some entry' ∧
          (∀ other, other ≠ name → collections'.find? other = store.collections.find? other) ∧
          Transacts host store command status { store with collections := collections' }) :
    ∃ store', Transacts host store command status store' ∧ Holds after store' := by
  rcases bind_ok done with ⟨⟨_, engine⟩, step, result⟩
  cases result
  unfold Engine.onCollection at step
  cases found : world.engine.collections.find? name with
  | none =>
      rw [found] at step
      cases step
      exact ⟨store, .unknown targets (holds.known.absent name found), holds⟩
  | some collection =>
      rw [found] at step
      rcases bind_ok step with ⟨⟨_, allocator, next⟩, operated, result⟩
      cases result
      rcases holds.known.shown name collection found with ⟨entry, isEntry, settled⟩
      rcases operates collection entry allocator next isEntry settled operated with
        ⟨confined, entry', collections', settled', here, elsewhere, transacts⟩
      exact ⟨_, transacts, owned, configured,
        holds.known.operate holds.owned found confined settled' here elsewhere,
        ⟨holds.filed.saved, holds.filed.missing⟩⟩

theorem update_transacts (holds : Holds world store) (targets : target? command = some name)
    {update : Update} (updates : update? command = some (name, update))
    (owned : after.engine.Owned) (configured : after.engine.Configured)
    {operation : MemoryAllocator → Collection → Run (Status × MemoryAllocator × Collection)}
    (done : world.onHandle name operation = .ok (status, after))
    (operates : ∀ collection entry allocator next,
      Settled world.engine.allocator collection entry →
      operation world.engine.allocator collection = .ok (status, allocator, next) →
      Confined world.engine.allocator allocator collection next ∧
        ∃ entry', entry.Updates update status entry' ∧ Settled allocator next entry') :
    ∃ store', Transacts host store command status store' ∧ Holds after store' := by
  apply onHandle_transacts holds targets owned configured done
  intro collection entry allocator next known settled operated
  rcases operates collection entry allocator next settled operated with
    ⟨confined, entry', made, settled'⟩
  refine ⟨confined, entry', store.collections.insert name entry', settled', ?_, ?_, ?_⟩
  · exact OrderedMap.find_insert_self _ _ _
  · intro other elsewhere
    exact OrderedMap.find_insert_of_ne _ _ elsewhere
  · exact .updated updates known made

theorem createCollection_transacts (holds : Holds world store) {dimensionality : UInt32}
    {metric : UInt8} (owned : after.engine.Owned) (configured : after.engine.Configured)
    (done : world.step host (.createCollection name dimensionality metric) = .ok (status, after)) :
    ∃ store', Transacts host store (.createCollection name dimensionality metric) status store' ∧
      Holds after store' := by
  cases checked : Engine.checkConfig name dimensionality metric with
  | error error =>
      simp only [World.step, Engine.createCollection, checked] at done
      cases done
      exact ⟨store, .invalid checked, holds⟩
  | ok config =>
      by_cases present : world.engine.collections.contains name = true
      · simp only [World.step, Engine.createCollection, checked, if_pos present] at done
        cases done
        rw [← holds.known.contains] at present
        exact ⟨store, .taken checked present, holds⟩
      · simp only [World.step, Engine.createCollection, checked, if_neg present] at done
        cases done
        have absent := OrderedMap.absent_of_not_contains present
        have stored := owned.stored name (Collection.new config world.engine.nextTag) (by
          simp only [OrderedMap.emplace_of_absent _ _ _ absent, OrderedMap.find_insert_self])
        exact ⟨_, .created checked (holds.known.absent name absent), owned, configured,
          holds.known.register absent (new_settled _ config stored),
          ⟨holds.filed.saved, holds.filed.missing⟩⟩

theorem deleteCollection_transacts (holds : Holds world store) {fault : Bool}
    (owned : after.engine.Owned) (configured : after.engine.Configured)
    (done : world.step host (.deleteCollection name fault) = .ok (status, after)) :
    ∃ store', Transacts host store (.deleteCollection name fault) status store' ∧
      Holds after store' := by
  have contains := holds.known.contains name
  cases found : world.engine.collections.find? name with
  | none =>
      simp only [World.step, Engine.deleteCollection, found] at done
      cases done
      exact ⟨store, .unknown rfl (holds.known.absent name found), holds⟩
  | some collection =>
      have present : store.collections.contains name = true := by
        rw [contains, OrderedMap.contains, found]
        rfl
      simp only [World.step, Engine.deleteCollection, found] at done
      cases fault with
      | true =>
          cases done
          exact ⟨store, .faulted present, holds⟩
      | false =>
          cases done
          exact ⟨_, .deleted present, owned, configured, holds.known.delete holds.owned found,
            ⟨holds.filed.saved, holds.filed.missing⟩⟩

theorem saveCollection_transacts (holds : Holds world store)
    (within : world.engine.Within Storable) {temp : Bytes} {outcome : SaveOutcome}
    (done : world.step host (.saveCollection name path temp outcome) = .ok (status, after)) :
    ∃ store', Transacts host store (.saveCollection name path temp outcome) status store' ∧
      Holds after store' := by
  rcases bind_ok done with ⟨⟨_, written⟩, saved, result⟩
  unfold Engine.saveCollection at saved
  cases found : world.engine.collections.find? name with
  | none =>
      rw [found] at saved
      cases saved
      cases result
      exact ⟨store, .unknown rfl (holds.known.absent name found), holds⟩
  | some collection =>
      rw [found] at saved
      rcases holds.known.shown name collection found with ⟨entry, isEntry, settled⟩
      have present : store.collections.contains name = true := by
        rw [OrderedMap.contains, isEntry]
        rfl
      have storable := within name collection found
      rcases bind_ok saved with ⟨bytes, encoded, saved⟩
      cases outcome with
      | writeFailed =>
          cases saved
          cases result
          exact ⟨store, .unsaved present (by decide) rfl, holds⟩
      | renameFailed =>
          cases saved
          cases result
          exact ⟨store, .unsaved present (by decide) rfl, holds⟩
      | published =>
          simp only at saved
          split at saved
          · next sized =>
            cases saved
            cases result
            have image : Image ⟨bytes, sized⟩ entry := ⟨world.engine.allocator, collection,
              (holds.configured name collection found).1, settled, storable, encoded⟩
            exact ⟨_, .saved isEntry, holds.owned, holds.configured,
              ⟨holds.known.shown, holds.known.absent⟩, holds.filed.write image⟩
          · next large => exact absurd (storable.2.2 bytes encoded) (by omega)

theorem loadCollection_transacts (holds : Holds world store) (owned : after.engine.Owned)
    (configured : after.engine.Configured)
    (done : world.step host (.loadCollection path) = .ok (status, after)) :
    ∃ store', Transacts host store (.loadCollection path) status store' ∧ Holds after store' := by
  rcases bind_ok done with ⟨⟨_, engine⟩, loads, result⟩
  cases result
  cases held : store.files.find? path with
  | none =>
      rw [Engine.loadCollection, holds.filed.missing path held] at loads
      cases loads
      exact ⟨store, .unread held rfl, owned, configured, ⟨holds.known.shown, holds.known.absent⟩,
        ⟨holds.filed.saved, holds.filed.missing⟩⟩
  | some entry =>
      rcases holds.filed.saved path entry held with ⟨content, isContent, image⟩
      rcases image.load path world.engine.allocator world.engine.nextTag with
        ⟨loaded, read, config, settles⟩
      simp only [Engine.loadCollection, isContent, read, bind, Except.bind, config] at loads
      split at loads
      · next present =>
          cases loads
          rw [← holds.known.contains] at present
          exact ⟨store, .collided held present, owned, configured,
            holds.known.conflict holds.owned, ⟨holds.filed.saved, holds.filed.missing⟩⟩
      · next fresh =>
          cases loads
          have absent := OrderedMap.absent_of_not_contains fresh
          have stored := owned.stored entry.config.name loaded (by
            rw [OrderedMap.emplace_of_absent _ _ _ absent]
            exact OrderedMap.find_insert_self _ _ _)
          exact ⟨_, .loaded held (holds.known.absent _ absent), owned, configured,
            holds.known.register absent (settles stored),
            ⟨holds.filed.saved, holds.filed.missing⟩⟩

/-- One case for each command. -/
theorem step_transacts (holds : Holds world store) (within : world.engine.Within Storable)
    (own : command.Own) (done : world.step host command = .ok (status, after)) :
    ∃ store', Transacts host store command status store' ∧ Holds after store' := by
  have sound := holds.owned.sound
  have owned := World.step_owned holds.owned done
  have configured :=
    World.effect_configured holds.owned holds.configured (World.step_effect done)
  cases command with
  | createCollection name dimensionality metric =>
      exact createCollection_transacts holds owned configured done
  | deleteCollection name fault => exact deleteCollection_transacts holds owned configured done
  | insert name id vec metadata =>
      apply update_transacts holds rfl rfl owned configured done
      intro collection entry allocator next settled operated
      exact Halfway.insert sound settled operated
  | insertBatch name records =>
      apply update_transacts holds rfl rfl owned configured done
      intro collection entry allocator next settled operated
      exact Halfway.insertBatch sound settled operated
  | remove name id =>
      apply update_transacts holds rfl rfl owned configured done
      intro collection entry allocator next settled operated
      rcases Halfway.remove sound settled id with ⟨_, _, _, removed, confined, made⟩
      rw [operated] at removed
      cases removed
      exact ⟨confined, made⟩
  | buildIndex name type params =>
      apply update_transacts holds rfl rfl owned configured done
      intro collection entry allocator next settled operated
      rcases Halfway.buildIndex host sound settled type params with ⟨_, _, built, confined, made⟩
      rw [built] at operated
      cases operated
      exact ⟨confined, made⟩
  | query name q k params =>
      apply onHandle_transacts holds rfl owned configured done
      intro collection entry allocator next known settled operated
      rcases bind_ok operated with ⟨⟨answer, queried⟩, inner, result⟩
      cases result
      have performed : SharedRead.perform host world.engine.allocator collection (.query q k params) =
          .ok (.neighbors answer, next) := by
        rw [SharedRead.perform, inner]
        rfl
      rcases settled.read sound performed with ⟨reads, same, settled'⟩
      exact ⟨⟨sound, Frame.refl _ _, same⟩, entry, store.collections, settled', known,
        fun _ _ => rfl, .queried known reads⟩
  | saveCollection name path temp outcome => exact saveCollection_transacts holds within done
  | loadCollection path => exact loadCollection_transacts holds owned configured done
  | putFile path file => cases own

theorem Session.within {events : List Event} (session : Session host events world) :
    world.engine.Within Storable := by
  cases session with
  | start capacity garbage =>
      intro name collection found
      cases found
  | command _ _ _ within => exact within
  | restart earlier capacity garbage =>
      intro name collection found
      cases found

/-- Induction over the session; each command is a transaction of the store. -/
theorem Session.holds {events : List Event} (session : Session host events world) :
    ∃ store, Replayed host events store ∧ Holds world store := by
  induction session with
  | start capacity garbage =>
      exact ⟨Store.empty, .start, Engine.new_owned capacity garbage,
        Engine.new_configured capacity garbage, new_known capacity garbage,
        ⟨fun _ _ held => by (cases held), fun _ _ => rfl⟩⟩
  | command earlier own done _ ih =>
      rcases ih with ⟨store, replayed, holds⟩
      rcases step_transacts holds earlier.within own done with ⟨store', transacts, holds'⟩
      exact ⟨store', replayed.command transacts, holds'⟩
  | restart earlier capacity garbage ih =>
      rcases ih with ⟨store, replayed, holds⟩
      exact ⟨_, replayed.restart, Engine.new_owned capacity garbage,
        Engine.new_configured capacity garbage, new_known capacity garbage,
        ⟨holds.filed.saved, holds.filed.missing⟩⟩

theorem save_comes_through {allocator : MemoryAllocator} {collection : Collection} {bytes : Bytes}
    (path temp : Bytes) (outcome : SaveOutcome)
    (isImage : image allocator collection = .ok bytes) :
    ∃ result, save allocator collection path temp outcome = .ok result := by
  simp only [save, isImage, bind, Except.bind]
  cases outcome with
  | writeFailed => exact ⟨_, rfl⟩
  | renameFailed => exact ⟨_, rfl⟩
  | published =>
      simp only
      split
      · exact ⟨_, rfl⟩
      · exact ⟨_, rfl⟩

theorem Holds.comes_through (host : Host D) (holds : Holds world store)
    (within : world.engine.Within Storable) (own : command.Own)
    (unsearched : ∀ name q k params, command ≠ .query name q k params) :
    ∃ status after, world.step host command = .ok (status, after) := by
  have sound := holds.owned.sound
  have handled : ∀ name operation, (∀ collection entry,
      Settled world.engine.allocator collection entry → ∃ status allocator next,
        operation world.engine.allocator collection = .ok (status, allocator, next)) →
      ∃ status after, world.onHandle name operation = .ok (status, after) := by
    intro name operation total
    cases found : world.engine.collections.find? name with
    | none =>
        refine ⟨.error (Engine.noCollection name), world, ?_⟩
        simp only [World.onHandle, Engine.onCollection, found]
        rfl
    | some collection =>
        rcases holds.known.shown name collection found with ⟨entry, _, settled⟩
        rcases total collection entry settled with ⟨status, allocator, next, done⟩
        simp only [World.onHandle, Engine.onCollection, found, done]
        exact ⟨_, _, rfl⟩
  cases command with
  | createCollection name dimensionality metric => exact ⟨_, _, rfl⟩
  | deleteCollection name fault => exact ⟨_, _, rfl⟩
  | insert name id vec metadata =>
      apply handled
      intro collection entry settled
      rcases insert_total host world.engine.allocator settled.indexed id vec metadata with
        ⟨status, allocator, next, done, _⟩
      exact ⟨status, allocator, next, done⟩
  | insertBatch name records =>
      apply handled
      intro collection entry settled
      rcases insertBatch_total host world.engine.allocator settled.indexed records with
        ⟨status, allocator, next, done, _⟩
      exact ⟨status, allocator, next, done⟩
  | remove name id =>
      apply handled
      intro collection entry settled
      rcases Halfway.remove sound settled id with ⟨status, allocator, next, done, _⟩
      exact ⟨status, allocator, next, done⟩
  | buildIndex name type params =>
      apply handled
      intro collection entry settled
      rcases Halfway.buildIndex host sound settled type params with ⟨status, next, done, _⟩
      refine ⟨status, world.engine.allocator, next, ?_⟩
      simp only [done]
      rfl
  | query name q k params => exact absurd rfl (unsearched name q k params)
  | saveCollection name path temp outcome =>
      cases found : world.engine.collections.find? name with
      | none =>
          refine ⟨.error (Engine.noCollection name), world, ?_⟩
          simp only [World.step, Engine.saveCollection, found]
          rfl
      | some collection =>
          rcases holds.known.shown name collection found with ⟨entry, _, settled⟩
          have tracked : collection.Tracked True entry.view := settled.indexed.tracked
          have encodable := captured_encodable (holds.configured name collection found).1
            settled.stored.named settled.shows tracked (within name collection found).2.1
          rcases save_comes_through path temp outcome
            ((image_captured settled.shows).trans (encode_written encodable)) with
            ⟨⟨status, written⟩, saved⟩
          simp only [World.step, Engine.saveCollection, found, saved, bind, Except.bind]
          cases written with
          | none => exact ⟨_, _, rfl⟩
          | some content => exact ⟨_, _, rfl⟩
  | loadCollection path =>
      cases held : store.files.find? path with
      | none =>
          have unread : PersistenceManager.load path world.engine.allocator .missing
              world.engine.nextTag = .ok (.error (notFound path "snapshot file '" "' does not exist")) :=
            rfl
          simp only [World.step, Engine.loadCollection, holds.filed.missing path held, unread, bind,
            Except.bind]
          exact ⟨_, _, rfl⟩
      | some entry =>
          rcases holds.filed.saved path entry held with ⟨content, isContent, image⟩
          rcases image.load path world.engine.allocator world.engine.nextTag with ⟨loaded, read, _⟩
          simp only [World.step, Engine.loadCollection, isContent, read, bind, Except.bind]
          by_cases present : world.engine.collections.contains loaded.config.name = true
          · simp only [if_pos present]
            exact ⟨_, _, rfl⟩
          · simp only [if_neg present]
            exact ⟨_, _, rfl⟩
  | putFile path file => cases own

theorem Known.listed {engine : Engine} {collections : OrderedMap Bytes Entry}
    (known : Known engine collections) :
    engine.listCollections = collections.entries.map (fun item => item.2.outline.info) := by
  have infos : engine.collections.mapValues Collection.info =
      collections.mapValues (fun entry => entry.outline.info) := by
    apply OrderedMap.ext_find
    intro name
    rw [OrderedMap.find_mapValues, OrderedMap.find_mapValues]
    cases found : engine.collections.find? name with
    | none => rw [known.absent name found, Option.map_none, Option.map_none]
    | some collection =>
        rcases known.shown name collection found with ⟨entry, isEntry, settled⟩
        have count : collection.recordCount = entry.view.size := by
          rw [settled.stored.counted, settled.shows.size]
        rw [isEntry, Option.map_some, Option.map_some, Collection.info, count, settled.config]
        rfl
  calc engine.listCollections
      = (engine.collections.mapValues Collection.info).entries.map Prod.snd := by
        rw [OrderedMap.mapValues, List.map_map]
        rfl
    _ = (collections.mapValues (fun entry => entry.outline.info)).entries.map Prod.snd := by
        rw [infos]
    _ = collections.entries.map (fun item => item.2.outline.info) := by
        rw [OrderedMap.mapValues, List.map_map]
        rfl

theorem Session.follow {events : List Event} {commands : List Command}
    (earlier : Session host events world)
    (followed : world.follow host Storable commands = some after) :
    ∃ more, Session host (events ++ more) after := by
  induction commands generalizing world events with
  | nil =>
      cases followed
      exact ⟨[], by rw [List.append_nil]; exact earlier⟩
  | cons command rest ih =>
      unfold World.follow at followed
      split at followed
      · next status next done =>
          split at followed
          · next fine =>
              rcases ih (earlier.command fine.1 done fine.2) followed with ⟨more, session⟩
              rw [List.append_assoc] at session
              exact ⟨_, session⟩
          · cases followed
      · cases followed

end Steps

end Durable

end VectorVault
