import VectorVault.PyHandles

/-! Every session of a program is one the store allows.

A call that comes through makes at most one command of the core. All text a program
has put into the store can be read out of it again, so no call fails to decode what it
returns. -/

namespace VectorVault.Python

open MemoryAllocator Collection PersistenceManager
open Concurrent (Entry Settled)
open Durable (Store Transacts Holds)

section Simulation

variable {D : Type} [LinearOrder D] [OrderTop D] {host : Host D} {world after : World}
  {visible : Visible} {call : PyCall} {name : Bytes} {command : Command} {status : Status}
  {result : Except Raised (Answer D)}

/-- What Python can be given of a record: its texts are text, its components finite. -/
def TextualRecord (id : RecordId) (record : RecordView) : Prop :=
  Textual id ∧ (∀ some_ ∈ record.metadata, TextualMetadata some_) ∧
    ∀ component ∈ record.vector, component.isFinite = true

structure Depicts (world : World) (visible : Visible) : Prop where
  holds : Holds world visible.store
  textual : Each TextualRecord visible.store
  handles : ∀ self name, visible.handles self = some name ↔ HandleOf world.engine self name

theorem toOptionalMetadata_textual {refused : Raised} {object : PyObject}
    {metadata : Option Metadata} (converted : toOptionalMetadata refused object = .ok metadata) :
    ∀ some_ ∈ metadata, TextualMetadata some_ := by
  intro some_ isSome
  unfold toOptionalMetadata at converted
  split at converted
  · cases converted
    cases isSome
  · rcases bind_ok converted with ⟨made, stored, same⟩
    cases same
    cases isSome
    exact toMetadata_textual stored
  · cases converted

theorem toRecord_textual {index : Nat} {item : PyObject} {record : RecordInput}
    (converted : toRecord index item = .ok record) :
    Textual record.id ∧ ∀ some_ ∈ record.metadata, TextualMetadata some_ := by
  have fields : ∀ id vector metadata, toRecord.toFields index id vector metadata = .ok record →
      Textual record.id ∧ ∀ some_ ∈ record.metadata, TextualMetadata some_ := by
    intro id vector metadata made
    unfold toRecord.toFields at made
    split at made
    · next name =>
        rcases bind_ok made with ⟨_, _, made⟩
        rcases bind_ok made with ⟨_, stored, same⟩
        cases same
        exact ⟨⟨name, rfl⟩, toOptionalMetadata_textual stored⟩
    · cases made
  unfold toRecord at converted
  split at converted
  · cases converted
  · exact fields _ _ _ converted
  · exact fields _ _ _ converted
  · cases converted

theorem toRecordsFrom_member {index : Nat} {items : List PyObject} {records : List RecordInput}
    (converted : toRecordsFrom index items = .ok records) :
    ∀ record ∈ records, ∃ position, ∃ item ∈ items, toRecord position item = .ok record := by
  induction items generalizing index records with
  | nil =>
      cases converted
      exact fun _ none => absurd none List.not_mem_nil
  | cons item rest ih =>
      rcases bind_ok converted with ⟨first, here, converted⟩
      rcases bind_ok converted with ⟨others, later, same⟩
      cases same
      intro record member
      rcases List.mem_cons.mp member with isFirst | isLater
      · rw [isFirst]
        exact ⟨index, item, List.mem_cons_self, here⟩
      · rcases ih later record isLater with ⟨position, other, among, made⟩
        exact ⟨position, other, List.mem_cons_of_mem _ among, made⟩

theorem toRecords_member {records : PyObject} {inputs : List RecordInput}
    (converted : toRecords records = .ok inputs) {record : RecordInput} (member : record ∈ inputs) :
    ∃ items position, iterated records = some items ∧ ∃ item ∈ items,
      toRecord position item = .ok record := by
  unfold toRecords at converted
  split at converted
  · next items isItems =>
      rcases toRecordsFrom_member converted record member with ⟨position, item, among, made⟩
      exact ⟨items, position, isItems, item, among, made⟩
  · cases converted

theorem commandOf_textual (spoken : call.Spoken) (asks : commandOf name call = .ok (some command)) :
    command.Own ∧ ∀ id record, Brings command id record →
      (∀ component ∈ record.vector, component.isFinite = true) → TextualRecord id record := by
  cases call with
  | insert self id vector metadata =>
      rcases bind_ok asks with ⟨⟨v, m⟩, converted, same⟩
      rcases bind_ok converted with ⟨_, _, converted⟩
      rcases bind_ok converted with ⟨_, stored, made⟩
      cases made
      cases same
      refine ⟨trivial, ?_⟩
      intro new record brought finite
      cases brought with
      | insert =>
          cases id with
          | bytes value => exact absurd spoken not_false
          | str value => exact ⟨⟨value, rfl⟩, toOptionalMetadata_textual stored, finite⟩
  | insertBatch self records =>
      rcases bind_ok asks with ⟨inputs, converted, same⟩
      cases same
      refine ⟨trivial, ?_⟩
      intro id record brought finite
      cases brought with
      | insertBatch member =>
          rcases toRecords_member converted member with ⟨_, _, _, _, _, made⟩
          exact ⟨(toRecord_textual made).1, (toRecord_textual made).2, finite⟩
  | createCollection new dim metric =>
      rcases bind_ok asks with ⟨_, _, same⟩
      cases same
      exact ⟨trivial, fun _ _ none => (by cases none)⟩
  | buildIndex self type kwargs =>
      rcases bind_ok asks with ⟨⟨_, _⟩, _, same⟩
      cases same
      exact ⟨trivial, fun _ _ none => (by cases none)⟩
  | query self vector k kwargs =>
      rcases bind_ok asks with ⟨⟨_, _, _⟩, _, same⟩
      cases same
      exact ⟨trivial, fun _ _ none => (by cases none)⟩
  | deleteCollection old =>
      cases asks
      exact ⟨trivial, fun _ _ none => (by cases none)⟩
  | save old path temp outcome =>
      cases asks
      exact ⟨trivial, fun _ _ none => (by cases none)⟩
  | load path =>
      cases asks
      exact ⟨trivial, fun _ _ none => (by cases none)⟩
  | delete self id =>
      cases asks
      exact ⟨trivial, fun _ _ none => (by cases none)⟩
  | getCollection | listCollections | get | count | indexType => cases asks

theorem Depicts.step (depicts : Depicts world visible) (within : world.engine.Within Storable)
    (spoken : call.Spoken) (asks : commandOf name call = .ok (some command))
    (done : world.step host command = .ok (status, after)) :
    ∃ store, Transacts host visible.store command status store ∧ Holds after store ∧
      Each TextualRecord store ∧ ∀ self name, HandleOf after.engine self name ↔
        store.collections.contains name = true ∧ (visible.handles self = some name ∨
          visible.store.collections.find? name = none ∧ self = world.engine.nextTag) := by
  rcases commandOf_textual spoken asks with ⟨own, brings⟩
  rcases Durable.step_transacts depicts.holds within own done with ⟨store, transacts, holds⟩
  refine ⟨store, transacts, holds, depicts.textual.transacts transacts (fun _ => brings), ?_⟩
  intro self name
  rw [effect_handles depicts.holds.owned (World.step_effect done), depicts.handles,
    holds.known.contains, OrderedMap.contains]
  have absent : world.engine.collections.find? name = none ↔
      visible.store.collections.find? name = none := by
    have same := depicts.holds.known.contains name
    rw [OrderedMap.contains, OrderedMap.contains] at same
    rw [← Option.not_isSome_iff_eq_none, ← Option.not_isSome_iff_eq_none, same]
  rw [absent]

theorem Depicts.idle (depicts : Depicts world visible) (within : world.engine.Within Storable)
    (spoken : call.Spoken) (asks : commandOf name call = .ok (some command))
    (done : world.step host command = .ok (status, after))
    (idle : (∃ error, status = .error error) ∨
      ∃ name q k params, command = .query name q k params) :
    Transacts host visible.store command status visible.store ∧ Depicts after visible := by
  rcases depicts.step within spoken asks done with ⟨store, transacts, holds, textual, handles⟩
  have same := transacts_unchanged transacts idle
  rw [same] at transacts holds textual handles
  refine ⟨transacts, holds, textual, fun self name => ?_⟩
  rw [handles]
  constructor
  · intro here
    rw [depicts.holds.known.contains]
    exact ⟨((depicts.handles self name).mp here).contains, Or.inl here⟩
  · rintro ⟨present, here | ⟨absent, _⟩⟩
    · exact here
    · rw [OrderedMap.contains, absent] at present
      cases present

theorem kept_iff {store : Store} {self : Nat} : visible.kept store self = some name ↔
    visible.handles self = some name ∧ store.collections.contains name = true := by
  rw [Visible.kept, Option.filter_eq_some_iff]

theorem Depicts.closed (depicts : Depicts world visible) (within : world.engine.Within Storable)
    (spoken : call.Spoken) (asks : commandOf name call = .ok (some command))
    (done : world.step host command = .ok (.ok (), after)) (closed : ¬ Registers command) :
    ∃ store, Transacts host visible.store command (.ok ()) store ∧
      Depicts after ⟨store, visible.kept store⟩ := by
  rcases depicts.step within spoken asks done with ⟨store, transacts, holds, textual, handles⟩
  refine ⟨store, transacts, holds, textual, fun self name => ?_⟩
  rw [handles,
    show Visible.handles ⟨store, visible.kept store⟩ self = visible.kept store self from rfl,
    kept_iff]
  constructor
  · rintro ⟨here, present⟩
    exact ⟨present, Or.inl here⟩
  · rintro ⟨present, here | ⟨absent, _⟩⟩
    · exact ⟨here, present⟩
    · exact absurd (transacts_names transacts absent present) closed

theorem Depicts.opened (depicts : Depicts world visible) (within : world.engine.Within Storable)
    (spoken : call.Spoken) (asks : commandOf name call = .ok (some command)) (opens : call.Opens)
    (done : world.step host command = .ok (.ok (), after)) {new : Bytes}
    (absent : world.engine.collections.find? new = none)
    (present : after.engine.collections.contains new = true) :
    ∃ visible', Does host visible call (.ok (handleTo after.engine new)) visible' ∧
      Depicts after visible' := by
  rcases depicts.step within spoken asks done with ⟨store, transacts, holds, textual, handles⟩
  rcases (OrderedMap.contains_iff _ _).mp present with ⟨collection, found⟩
  have missing := depicts.holds.known.absent new absent
  have here : HandleOf after.engine world.engine.nextTag new := by
    apply (handles _ _).mpr
    rw [holds.known.contains]
    exact ⟨present, Or.inr ⟨missing, rfl⟩⟩
  have handed : handleTo after.engine new = (.collection world.engine.nextTag : Answer D) := by
    rcases here with ⟨other, isOther, tagged⟩
    rw [handleTo, isOther, ← tagged]
  have fresh : visible.handles world.engine.nextTag = none := by
    by_contra some_
    rcases Option.ne_none_iff_exists'.mp some_ with ⟨other, leads⟩
    rcases (depicts.handles _ _).mp leads with ⟨held, isHeld, tagged⟩
    have below := depicts.holds.owned.tags other held isHeld
    omega
  have lead : ∀ self other,
      Function.update (visible.kept store) world.engine.nextTag (some new) self = some other ↔
        HandleOf after.engine self other := by
    intro self other
    by_cases isNew : self = world.engine.nextTag
    · rw [isNew, Function.update_self]
      constructor
      · intro same
        cases same
        exact here
      · intro there
        rw [here.unique holds.owned there]
    · rw [handles, Function.update_of_ne isNew, kept_iff]
      constructor
      · rintro ⟨leads, kept⟩
        exact ⟨kept, Or.inl leads⟩
      · rintro ⟨kept, leads | ⟨_, isNext⟩⟩
        · exact ⟨leads, kept⟩
        · exact absurd isNext isNew
  rw [handed]
  rw [← holds.known.contains] at present
  exact ⟨_, .handed asks opens transacts missing present fresh, holds, textual, lead⟩

theorem fromCore_ok {A : Type} {outcome : Run A} {value : A} (done : fromCore outcome = .ok value) :
    outcome = .ok value := by
  cases outcome with
  | error fault => cases done
  | ok other =>
      cases done
      rfl

theorem following_ok {A : Type} {self : Nat} {use : Bytes → Collection → Except Broken A}
    {value : A} (done : following world self use = .ok value) :
    ∃ name collection, registered? world.engine self = some (name, collection) ∧
      use name collection = .ok value := by
  unfold following at done
  split at done
  · next name collection found => exact ⟨name, collection, found, done⟩
  · cases done

theorem Depicts.follow (depicts : Depicts world visible) {self : Nat} {collection : Collection}
    (found : registered? world.engine self = some (name, collection)) :
    visible.handles self = some name ∧ ∃ entry, visible.store.collections.find? name = some entry ∧
      Settled world.engine.allocator collection entry := by
  rcases registered_find found with ⟨known, tagged⟩
  exact ⟨(depicts.handles self name).mpr ⟨collection, known, tagged⟩,
    depicts.holds.known.shown name collection known⟩

theorem Depicts.executed (depicts : Depicts world visible) (within : world.engine.Within Storable)
    (spoken : call.Spoken) (leads : visible.Leads call name)
    (asks : commandOf name call = .ok (some command)) (quiet : call.Quiet)
    (closed : ¬ Registers command) (done : execute host world command = .ok (result, after)) :
    ∃ visible', Does host visible call result visible' ∧ Depicts after visible' := by
  rcases bind_ok done with ⟨⟨status, reached⟩, step, same⟩
  cases same
  cases status with
  | error error =>
      rcases depicts.idle within spoken asks (fromCore_ok step) (Or.inl ⟨error, rfl⟩) with
        ⟨fails, depicts'⟩
      exact ⟨visible, .threw leads asks fails, depicts'⟩
  | ok _ =>
      rcases depicts.closed within spoken asks (fromCore_ok step) closed with
        ⟨store, does, depicts'⟩
      exact ⟨_, .done leads asks quiet does, depicts'⟩

theorem leads_none (unhandled : call.self? = none) : visible.Leads call name := by
  intro self same
  rw [unhandled] at same
  cases same

theorem leads_self {self : Nat} (leads : visible.handles self = some name)
    (handled : call.self? = some self) : visible.Leads call name := by
  intro other same
  rw [handled, Option.some.injEq] at same
  rw [← same, leads]

theorem Depicts.convert (depicts : Depicts world visible) {A : Type} {converted : Except Raised A}
    {use : A → Except Broken (Performed D)}
    (done : converting world converted use = .ok (result, after))
    (refused : ∀ raised, converted = .error raised → commandOf [] call = .error raised)
    (used : ∀ value, converted = .ok value → use value = .ok (result, after) →
      ∃ visible', Does host visible call result visible' ∧ Depicts after visible') :
    ∃ visible', Does host visible call result visible' ∧ Depicts after visible' := by
  cases converted with
  | error raised =>
      cases done
      exact ⟨visible, .refused (refused raised rfl), depicts⟩
  | ok value => exact used value rfl done

theorem Depicts.executedOn (depicts : Depicts world visible) (within : world.engine.Within Storable)
    (spoken : call.Spoken) (quiet : call.Quiet) {self : Nat} (handled : call.self? = some self)
    {asked : Bytes → Command} (asks : ∀ name, commandOf name call = .ok (some (asked name)))
    (closed : ∀ name, ¬ Registers (asked name))
    (done : following world self (fun name _ => execute host world (asked name)) =
      .ok (result, after)) :
    ∃ visible', Does host visible call result visible' ∧ Depicts after visible' := by
  rcases following_ok done with ⟨name, collection, found, done⟩
  have leads := leads_self (depicts.follow found).1 handled
  exact depicts.executed within spoken leads (asks name) quiet (closed name) done

theorem createCollection_new {engine engine' : Engine} {new : Bytes} {dimensionality : UInt32}
    {metric : UInt8} {handle : CollectionHandle}
    (made : engine.createCollection new dimensionality metric = (.ok handle, engine')) :
    engine.collections.find? handle.name = none ∧
      engine'.collections.contains handle.name = true := by
  unfold Engine.createCollection at made
  split at made
  · cases made
  · split at made
    · cases made
    · next fresh =>
        cases made
        have absent := OrderedMap.absent_of_not_contains fresh
        refine ⟨absent, ?_⟩
        rw [OrderedMap.emplace_of_absent _ _ _ absent, OrderedMap.contains,
          OrderedMap.find_insert_self]
        rfl

theorem loadCollection_new {engine engine' : Engine} {path : Bytes} {file : SnapshotFile}
    {handle : CollectionHandle}
    (read : engine.loadCollection path file = .ok (.ok handle, engine')) :
    engine.collections.find? handle.name = none ∧
      engine'.collections.contains handle.name = true := by
  rcases bind_ok read with ⟨loaded, _, made⟩
  cases loaded with
  | error error => cases made
  | ok collection =>
      simp only at made
      split at made
      · cases made
      · next fresh =>
          cases made
          have absent := OrderedMap.absent_of_not_contains fresh
          refine ⟨absent, ?_⟩
          rw [OrderedMap.emplace_of_absent _ _ _ absent, OrderedMap.contains,
            OrderedMap.find_insert_self]
          rfl

omit [LinearOrder D] [OrderTop D] in
theorem fromNeighbors_textual {results : List (Neighbor D)}
    (textual : ∀ neighbor ∈ results, Textual neighbor.id) :
    ∃ out, fromNeighbors results = .ok out ∧
      results = out.map (fun given => ⟨encode given.1, given.2⟩) := by
  induction results with
  | nil => exact ⟨[], rfl, rfl⟩
  | cons neighbor rest ih =>
      rcases textual neighbor List.mem_cons_self with ⟨id, same⟩
      rcases ih (fun other member => textual other (List.mem_cons_of_mem _ member)) with
        ⟨out, decoded, isRest⟩
      refine ⟨(id, neighbor.distance) :: out, ?_, ?_⟩
      · simp only [fromNeighbors, ← same, decode_encode, decoded, bind, Except.bind]
        rfl
      · rw [List.map_cons, ← isRest, same]

theorem fromOptionalMetadata_textual {metadata : Option Metadata}
    (textual : ∀ some_ ∈ metadata, TextualMetadata some_) :
    ∃ object, fromOptionalMetadata metadata = .ok object := by
  cases metadata with
  | none => exact ⟨.none, rfl⟩
  | some stored =>
      rcases fromMetadata_ok (textual stored rfl) with ⟨items, converted, _⟩
      exact ⟨.dict items, converted⟩

theorem get_does (depicts : Depicts world visible) {self : Nat} {id : PyText}
    (done : perform host world (.get self id) = .ok (result, after)) :
    Does host visible (.get self id) result visible ∧ after = world := by
  rcases following_ok done with ⟨name, collection, found, done⟩
  rcases depicts.follow found with ⟨leads, entry, known, settled⟩
  rcases bind_ok done with ⟨answer, read, same⟩
  have shown := settled.shows id.cast
  rw [fromCore_ok read, Except.ok.injEq] at shown
  cases same
  cases held : entry.view.find? id.cast with
  | none =>
      rw [held] at shown
      rw [shown]
      exact ⟨.missing leads known held, rfl⟩
  | some record =>
      rw [held] at shown
      have textual := depicts.textual.collections name entry known _ record held
      rcases fromOptionalMetadata_textual textual.2.1 with ⟨metadata, converted⟩
      have returned : (unwrap answer).bind (fromRecord (D := D)) =
          .ok (.object (.tuple [fromFloatVector record.vector, metadata])) := by
        rw [shown]
        simp only [unwrap, Except.bind, fromRecord, converted, bind]
        rfl
      rw [returned]
      exact ⟨.got leads known held converted, rfl⟩

theorem query_does (depicts : Depicts world visible) (within : world.engine.Within Storable)
    {self : Nat} {vector k : PyObject} {kwargs : List (String × PyObject)}
    (done : perform host world (.query self vector k kwargs) = .ok (result, after)) :
    ∃ visible', Does host visible (.query self vector k kwargs) result visible' ∧
      Depicts after visible' := by
  apply depicts.convert done
  · intro raised failed
    rw [commandOf, failed]
    rfl
  rintro ⟨v, k32, params⟩ converted done
  rcases following_ok done with ⟨name, collection, found, done⟩
  rcases depicts.follow found with ⟨leads, entry, known, settled⟩
  rcases bind_ok done with ⟨⟨answer, next⟩, queried, same⟩
  cases same
  have queried := fromCore_ok queried
  have asks : commandOf name (.query self vector k kwargs) =
      .ok (some (.query name v k32 params)) := by
    rw [commandOf, converted]
    rfl
  have step : world.step host (.query name v k32 params) =
      .ok (answer.map (fun _ => ()), { world with
        engine := { world.engine with
          collections := world.engine.collections.insert name next } }) := by
    simp only [World.step, World.onHandle, Engine.onCollection, (registered_find found).1, queried,
      bind, Except.bind]
    rfl
  have spoken : (PyCall.query self vector k kwargs).Spoken := trivial
  rcases depicts.idle within spoken asks step (Or.inr ⟨name, v, k32, params, rfl⟩) with
    ⟨transacts, depicts'⟩
  cases answer with
  | error error => exact ⟨visible, .threw (leads_self leads rfl) asks transacts, depicts'⟩
  | ok results =>
      have performed :
          SharedRead.perform host world.engine.allocator collection (.query v k32 params) =
            .ok (.neighbors (.ok results), next) := by
        rw [SharedRead.perform, queried]
        rfl
      rcases settled.read depicts.holds.owned.sound performed with ⟨reads, _, _⟩
      have textual : ∀ neighbor ∈ results, Textual neighbor.id := by
        cases reads with
        | nearest valid answers exhaustive =>
            intro neighbor member
            rcases answers.exact neighbor member with ⟨record, held, _⟩
            exact (depicts.textual.collections name entry known _ record held).1
      rcases fromNeighbors_textual textual with ⟨out, decoded, named⟩
      have returned : (unwrap (.ok results : Result (List (Neighbor D)))).bind
          (fun neighbors => (fromNeighbors neighbors).map Answer.neighbors) =
            .ok (.neighbors out) := by
        rw [unwrap, Except.bind, decoded]
        rfl
      rw [returned]
      exact ⟨visible, .answered leads asks known reads named, depicts'⟩

theorem createCollection_does (depicts : Depicts world visible)
    (within : world.engine.Within Storable) {new metric : PyText} {dim : UInt32}
    (done : perform host world (.createCollection new dim metric) = .ok (result, after)) :
    ∃ visible', Does host visible (.createCollection new dim metric) result visible' ∧
      Depicts after visible' := by
  apply depicts.convert done
  · intro raised failed
    rw [commandOf, failed]
    rfl
  intro parsed converted done
  have asks : commandOf [] (.createCollection new dim metric) =
      .ok (some (.createCollection new.cast dim parsed.toByte)) := by
    rw [commandOf, converted]
    rfl
  have spoken : (PyCall.createCollection new dim metric).Spoken := trivial
  cases made : world.engine.createCollection new.cast dim parsed.toByte with
  | mk created engine =>
      have step : world.step host (.createCollection new.cast dim parsed.toByte) =
          .ok (created.map (fun _ => ()), { world with engine := engine }) := by
        rw [World.step, made]
        rfl
      rw [made] at done
      cases done
      cases created with
      | error error =>
          rcases depicts.idle within spoken asks step (Or.inl ⟨error, rfl⟩) with ⟨fails, depicts'⟩
          exact ⟨visible, .threw (leads_none rfl) asks fails, depicts'⟩
      | ok handle =>
          rcases createCollection_new made with ⟨absent, present⟩
          exact depicts.opened within spoken asks trivial step absent present

theorem load_does (depicts : Depicts world visible) (within : world.engine.Within Storable)
    {path : PyText} (done : perform host world (.load path) = .ok (result, after)) :
    ∃ visible', Does host visible (.load path) result visible' ∧ Depicts after visible' := by
  have asks : commandOf [] (.load path) = .ok (some (.loadCollection path.cast)) := rfl
  have spoken : (PyCall.load path).Spoken := trivial
  rcases bind_ok done with ⟨⟨loaded, engine⟩, read, same⟩
  cases same
  have step : world.step host (.loadCollection path.cast) =
      .ok (loaded.map (fun _ => ()), { world with engine := engine }) := by
    simp only [World.step, fromCore_ok read, bind, Except.bind]
    rfl
  cases loaded with
  | error error =>
      rcases depicts.idle within spoken asks step (Or.inl ⟨error, rfl⟩) with ⟨fails, depicts'⟩
      exact ⟨visible, .threw (leads_none rfl) asks fails, depicts'⟩
  | ok handle =>
      rcases loadCollection_new (fromCore_ok read) with ⟨absent, present⟩
      exact depicts.opened within spoken asks trivial step absent present

theorem perform_does (depicts : Depicts world visible) (within : world.engine.Within Storable)
    (spoken : call.Spoken) (done : perform host world call = .ok (result, after)) :
    ∃ visible', Does host visible call result visible' ∧ Depicts after visible' := by
  cases call with
  | createCollection new dim metric => exact createCollection_does depicts within done
  | load path => exact load_does depicts within done
  | query self vector k kwargs => exact query_does depicts within done
  | get self id =>
      rcases get_does depicts done with ⟨does, same⟩
      rw [same]
      exact ⟨visible, does, depicts⟩
  | getCollection name =>
      cases done
      cases found : world.engine.collections.find? name.cast with
      | none =>
          rw [Engine.getCollection, found]
          exact ⟨visible, .unknown (depicts.holds.known.absent _ found), depicts⟩
      | some collection =>
          rw [Engine.getCollection, found]
          have leads := (depicts.handles collection.tag name.cast).mpr ⟨collection, found, rfl⟩
          have present : visible.store.collections.contains name.cast = true := by
            rw [depicts.holds.known.contains]
            exact (OrderedMap.contains_iff _ _).mpr ⟨collection, found⟩
          exact ⟨visible, .found present leads, depicts⟩
  | listCollections =>
      cases done
      rw [depicts.holds.known.listed]
      exact ⟨visible, .listed, depicts⟩
  | deleteCollection name =>
      have leads : visible.Leads (.deleteCollection name) [] := leads_none rfl
      exact depicts.executed within spoken leads rfl trivial id done
  | save name path temp outcome =>
      have leads : visible.Leads (.save name path temp outcome) [] := leads_none rfl
      exact depicts.executed within spoken leads rfl trivial id done
  | insert self id vector metadata =>
      apply depicts.convert done
      · intro raised failed
        rw [commandOf, failed]
        rfl
      · rintro ⟨v, m⟩ converted done
        have asks : ∀ name, commandOf name (.insert self id vector metadata) =
            .ok (some (.insert name id.cast v m)) := by
          intro name
          rw [commandOf, converted]
          rfl
        exact depicts.executedOn within spoken trivial rfl asks (fun _ => not_false) done
  | insertBatch self records =>
      apply depicts.convert done
      · intro raised failed
        rw [commandOf, failed]
        rfl
      · intro inputs converted done
        have asks : ∀ name, commandOf name (.insertBatch self records) =
            .ok (some (.insertBatch name inputs)) := by
          intro name
          rw [commandOf, converted]
          rfl
        exact depicts.executedOn within spoken trivial rfl asks (fun _ => not_false) done
  | buildIndex self type kwargs =>
      apply depicts.convert done
      · intro raised failed
        rw [commandOf, failed]
        rfl
      · rintro ⟨t, params⟩ converted done
        have asks : ∀ name, commandOf name (.buildIndex self type kwargs) =
            .ok (some (.buildIndex name t params)) := by
          intro name
          rw [commandOf, converted]
          rfl
        exact depicts.executedOn within spoken trivial rfl asks (fun _ => not_false) done
  | delete self id =>
      exact depicts.executedOn within spoken trivial rfl (fun _ => rfl) (fun _ => not_false) done
  | count self =>
      rcases following_ok done with ⟨name, collection, found, same⟩
      rcases depicts.follow found with ⟨leads, entry, known, settled⟩
      have count : collection.count = entry.view.size :=
        settled.stored.counted.trans settled.shows.size.symm
      cases same
      rw [count]
      exact ⟨visible, .counted leads known, depicts⟩
  | indexType self =>
      rcases following_ok done with ⟨name, collection, found, same⟩
      rcases depicts.follow found with ⟨leads, entry, known, settled⟩
      cases same
      rw [settled.indexType]
      exact ⟨visible, .typed leads known, depicts⟩

end Simulation

section Sessions

variable {D : Type} [LinearOrder D] [OrderTop D] {host : Host D} {world after : World}
  {before visible : Visible} {events : List (Event D)} {call : PyCall}
  {result : Except Raised (Answer D)}

theorem Session.within (session : Session host events world) : world.engine.Within Storable := by
  cases session with
  | start capacity garbage =>
      intro name collection found
      cases found
  | step _ goes =>
      cases goes with
      | call _ _ within => exact within
      | restart capacity garbage =>
          intro name collection found
          cases found

theorem restart_depicts {files : OrderedMap Bytes Entry} (filed : Durable.Filed world files)
    (textual : ∀ path entry, files.find? path = some entry →
      ∀ id record, entry.view.find? id = some record → TextualRecord id record)
    (capacity : UInt64) (garbage : Nat → UInt8) :
    Depicts (world.restart capacity garbage) ⟨⟨OrderedMap.empty, files⟩, fun _ => none⟩ where
  holds := ⟨Engine.new_owned capacity garbage, Engine.new_configured capacity garbage,
    Durable.new_known capacity garbage, ⟨filed.saved, filed.missing⟩⟩
  textual := ⟨fun _ _ found => (by cases found), textual⟩
  handles self name := by
    constructor
    · intro none
      cases none
    · rintro ⟨collection, found, _⟩
      cases found

/-- Induction over the session; each call does what the store and the handles say. -/
theorem Session.depicts (session : Session host events world) :
    ∃ visible, Traced host events visible ∧ Depicts world visible := by
  induction session with
  | start capacity garbage =>
      have filed : Durable.Filed (World.new capacity garbage) OrderedMap.empty :=
        ⟨fun _ _ held => (by cases held), fun _ _ => rfl⟩
      exact ⟨Visible.empty, .start,
        restart_depicts filed (fun _ _ held => (by cases held)) capacity garbage⟩
  | step earlier goes ih =>
      rcases ih with ⟨visible, traced, depicts⟩
      cases goes with
      | call spoken done _ =>
          rcases bind_ok done with ⟨⟨result, reached⟩, performed, same⟩
          cases same
          rcases perform_does depicts earlier.within spoken performed with
            ⟨visible', does, depicts'⟩
          exact ⟨visible', traced.call does, depicts'⟩
      | restart capacity garbage =>
          exact ⟨_, traced.restart,
            restart_depicts depicts.holds.filed depicts.textual.files capacity garbage⟩

theorem Does.raised {raised : Raised} (does : Does host before call (.error raised) visible) :
    Refusal raised ∨ ∃ error : Error, raised = .core error.category (message error) := by
  cases does with
  | refused conversion => exact Or.inl (commandOf_converts _ _ _ conversion)
  | threw => exact Or.inr ⟨_, rfl⟩
  | @unknown name => exact Or.inr ⟨Engine.noCollection name.cast, rfl⟩
  | @missing _ id => exact Or.inr ⟨noSuchRecord id.cast, rfl⟩

theorem Traced.raised {exception : PyException} (traced : Traced host events visible)
    (threw : .call call (.error exception) ∈ events) :
    ∃ raised, exception = translate raised ∧
      (Refusal raised ∨ ∃ error : Error, raised = .core error.category (message error)) := by
  induction traced with
  | start => cases threw
  | @call _ _ _ _ result earlier does ih =>
      rcases List.mem_append.mp threw with before | last
      · exact ih before
      · cases result with
        | ok answer => cases List.mem_singleton.mp last
        | error raised =>
            cases List.mem_singleton.mp last
            exact ⟨raised, rfl, does.raised⟩
  | restart earlier ih =>
      rcases List.mem_append.mp threw with before | last
      · exact ih before
      · cases List.mem_singleton.mp last

section Runs

variable (host)

def invoked? (world : World) (call : PyCall) : Option (Except PyException (Answer D) × World) :=
  match invoke host world call with
  | .ok (result, after) =>
      if call.Spoken ∧ after.engine.Within Storable then some (result, after) else none
  | .error _ => none

def returned? (world : World) (call : PyCall) : Option (Answer D × World) :=
  (invoked? host world call).bind (fun came => came.1.toOption.map (fun answer => (answer, came.2)))

def follow : World → List PyCall → Option World
  | world, [] => some world
  | world, call :: rest => (returned? host world call).bind (fun came => follow came.2 rest)

end Runs

theorem goes_of_invoked {result : Except PyException (Answer D)}
    (invoked : invoked? host world call = some (result, after)) :
    Goes host world (.call call result) after := by
  unfold invoked? at invoked
  split at invoked
  · next done =>
      split at invoked
      · next fine =>
          cases invoked
          exact .call fine.1 done fine.2
      · cases invoked
  · cases invoked

theorem goes_of_returned {answer : Answer D}
    (returned : returned? host world call = some (answer, after)) :
    Goes host world (.call call (.ok answer)) after := by
  rcases Option.bind_eq_some_iff.mp returned with ⟨⟨result, reached⟩, invoked, isAnswer⟩
  cases result with
  | error exception => cases isAnswer
  | ok other =>
      cases isAnswer
      exact goes_of_invoked invoked

theorem Session.follow {calls : List PyCall} (earlier : Session host events world)
    (followed : follow host world calls = some after) :
    ∃ more, Session host (events ++ more) after := by
  induction calls generalizing world events with
  | nil =>
      cases followed
      exact ⟨[], by rw [List.append_nil]; exact earlier⟩
  | cons call rest ih =>
      rcases Option.bind_eq_some_iff.mp followed with ⟨⟨answer, next⟩, came, followed⟩
      rcases ih (earlier.step (goes_of_returned came)) followed with ⟨more, session⟩
      rw [List.append_assoc] at session
      exact ⟨_, session⟩

end Sessions

end VectorVault.Python
