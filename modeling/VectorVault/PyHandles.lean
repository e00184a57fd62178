import VectorVault.PyProgram

/-! What commands do to the records of a store and to the handles of an engine. -/

namespace VectorVault.Python

open MemoryAllocator Collection PersistenceManager
open Concurrent (Entry Update)
open Durable (Store Transacts update?)

section Stores

variable {D : Type} [LinearOrder D] [OrderTop D] {host : Host D} {store after : Store}
  {command : Command} {status : Status} {holds : RecordId → RecordView → Prop}

theorem insertedAll_cases {view : OrderedMap RecordId RecordView} {records : List RecordInput}
    {id : RecordId} {record : RecordView}
    (found : (insertedAll view records).find? id = some record) :
    view.find? id = some record ∨
      ∃ input ∈ records, input.id = id ∧ record = ⟨input.vector, input.metadata⟩ := by
  induction records generalizing view with
  | nil => exact Or.inl found
  | cons first rest ih =>
      rcases ih found with before | ⟨input, member, same, isRecord⟩
      · rw [OrderedMap.find_insert] at before
        split at before
        · next here =>
            cases before
            exact Or.inr ⟨first, List.mem_cons_self, here.symm, rfl⟩
        · exact Or.inl before
      · exact Or.inr ⟨input, List.mem_cons_of_mem _ member, same, isRecord⟩

theorem updates_record {entry after : Entry} {name : Bytes} {update : Update}
    (updates : update? command = some (name, update))
    (made : entry.Updates update status after) {id : RecordId} {record : RecordView}
    (found : after.view.find? id = some record) :
    entry.view.find? id = some record ∨ (status = .ok () ∧ Brings command id record ∧
      ∀ component ∈ record.vector, component.isFinite = true) := by
  cases made with
  | rejected why => exact Or.inl found
  | exhausted valid allocates category => exact Or.inl found
  | made valid =>
      cases command with
      | insert target new vec metadata =>
          cases updates
          have accepted := @rejectInsert_none (Collection.new entry.config 0) new vec valid
          simp only [Entry.apply, OrderedMap.find_insert] at found
          split at found
          · next here =>
              cases found
              rw [here]
              exact Or.inr ⟨rfl, .insert, accepted.2.2⟩
          · exact Or.inl found
      | insertBatch target records =>
          cases updates
          have accepted := @rejectBatch_none (Collection.new entry.config 0) records valid
          rcases insertedAll_cases found with before | ⟨input, member, same, isRecord⟩
          · exact Or.inl before
          · rw [isRecord, ← same]
            exact Or.inr ⟨rfl, .insertBatch member, (accepted input member).2.2⟩
      | remove target old =>
          cases updates
          simp only [Entry.apply, OrderedMap.find_erase] at found
          split at found
          · cases found
          · exact Or.inl found
      | buildIndex target type params =>
          cases updates
          exact Or.inl found
      | _ => cases updates

theorem each_insert {entries : OrderedMap Bytes Entry} {name : Bytes} {entry : Entry}
    (all : ∀ other held, entries.find? other = some held →
      ∀ id record, held.view.find? id = some record → holds id record)
    (new : ∀ id record, entry.view.find? id = some record → holds id record) :
    ∀ other held, (entries.insert name entry).find? other = some held →
      ∀ id record, held.view.find? id = some record → holds id record := by
  intro other held found
  rw [OrderedMap.find_insert] at found
  split at found
  · cases found
    exact new
  · exact all other held found

/-- One case for each way a command ends; the ones that change no collection's records
are alike. -/
theorem Each.transacts (each : Each holds store)
    (transacts : Transacts host store command status after)
    (brings : status = .ok () → ∀ id record, Brings command id record →
      (∀ component ∈ record.vector, component.isFinite = true) → holds id record) :
    Each holds after := by
  cases transacts with
  | created checked absent =>
      exact ⟨each_insert each.collections (fun _ _ found => (by cases found)), each.files⟩
  | deleted present =>
      refine ⟨fun other held found => ?_, each.files⟩
      simp only [OrderedMap.find_erase] at found
      split at found
      · cases found
      · exact each.collections other held found
  | updated updates known made =>
      refine ⟨each_insert each.collections (fun id record found => ?_), each.files⟩
      rcases updates_record updates made found with before | ⟨came, brought, finite⟩
      · exact each.collections _ _ known id record before
      · exact brings came id record brought finite
  | saved known => exact ⟨each.collections, each_insert each.files (each.collections _ _ known)⟩
  | loaded held absent =>
      exact ⟨each_insert each.collections (each.files _ _ held), each.files⟩
  | invalid | taken | unknown | faulted | queried | unsaved | unread | collided => exact each

theorem Each.imp {other : RecordId → RecordView → Prop} (each : Each holds store)
    (implies : ∀ id record, holds id record → other id record) : Each other store :=
  ⟨fun name entry found id record held =>
      implies id record (each.collections name entry found id record held),
    fun path entry found id record held =>
      implies id record (each.files path entry found id record held)⟩

theorem insert_same {entries : OrderedMap Bytes Entry} {name : Bytes} {entry : Entry}
    (known : entries.find? name = some entry) : entries.insert name entry = entries := by
  apply OrderedMap.ext_find
  intro other
  rw [OrderedMap.find_insert]
  split
  · next here => rw [here, known]
  · rfl

theorem transacts_unchanged (transacts : Transacts host store command status after)
    (idle : (∃ error, status = .error error) ∨
      ∃ name q k params, command = .query name q k params) :
    after = store := by
  cases transacts with
  | created | deleted | saved | loaded =>
      rcases idle with ⟨error, failed⟩ | ⟨name, q, k, params, isQuery⟩
      · cases failed
      · cases isQuery
  | updated updates known made =>
      rcases idle with ⟨error, failed⟩ | ⟨name, q, k, params, isQuery⟩
      · cases made with
        | rejected why => rw [insert_same known]
        | exhausted valid allocates category => rw [insert_same known]
        | made valid => cases failed
      · rw [isQuery] at updates
        cases updates
  | invalid | taken | unknown | faulted | queried | unsaved | unread | collided => rfl

def Registers : Command → Prop
  | .createCollection _ _ _ | .loadCollection _ => True
  | _ => False

theorem transacts_names {name : Bytes} (transacts : Transacts host store command status after)
    (absent : store.collections.find? name = none)
    (present : after.collections.contains name = true) :
    Registers command := by
  have missing : store.collections.contains name ≠ true := by
    rw [OrderedMap.contains, absent]
    exact Bool.false_ne_true
  cases transacts with
  | created | loaded => trivial
  | deleted =>
      rcases (OrderedMap.contains_iff _ _).mp present with ⟨entry, found⟩
      simp only [OrderedMap.find_erase] at found
      split at found
      · cases found
      · rw [absent] at found
        cases found
  | updated updates known made =>
      rcases (OrderedMap.contains_iff _ _).mp present with ⟨entry, found⟩
      simp only [OrderedMap.find_insert] at found
      split at found
      · next here =>
          rw [here, known] at absent
          cases absent
      · rw [absent] at found
        cases found
  | invalid | taken | unknown | faulted | queried | saved | unsaved | unread | collided =>
      exact absurd present missing

end Stores

section Handles

variable {D : Type} [FloatOrder D] {host : Host D} {world after : World} {self : Nat} {name : Bytes}

/-- The handle is one of the collection `name`. -/
def HandleOf (engine : Engine) (self : Nat) (name : Bytes) : Prop :=
  ∃ collection, engine.collections.find? name = some collection ∧ collection.tag = self

theorem registered_find {engine : Engine} {collection : Collection}
    (found : registered? engine self = some (name, collection)) :
    engine.collections.find? name = some collection ∧ collection.tag = self := by
  have member := List.mem_of_find?_eq_some found
  have tagged := List.find?_some found
  exact ⟨(OrderedMap.find_eq_some_iff _ _ _).mpr member, of_decide_eq_true tagged⟩

theorem registered_iff {engine : Engine} (owned : engine.Owned) :
    (∃ collection, registered? engine self = some (name, collection)) ↔
      HandleOf engine self name := by
  constructor
  · rintro ⟨collection, found⟩
    exact ⟨collection, registered_find found⟩
  · rintro ⟨collection, known, tagged⟩
    have member := (OrderedMap.find_eq_some_iff _ _ _).mp known
    cases found : registered? engine self with
    | none =>
        have other := List.find?_eq_none.mp found _ member
        exact absurd (decide_eq_true tagged) other
    | some there =>
        rcases there with ⟨other, held⟩
        rcases registered_find found with ⟨isThere, tag⟩
        have same := owned.distinct name other collection held known isThere
          (tagged.trans tag.symm)
        rw [same]
        exact ⟨held, rfl⟩

theorem HandleOf.unique {engine : Engine} (owned : engine.Owned) {other : Bytes}
    (here : HandleOf engine self name) (there : HandleOf engine self other) : name = other := by
  rcases here with ⟨one, found, tag⟩
  rcases there with ⟨two, found', tag'⟩
  exact owned.distinct name other one two found found' (tag.trans tag'.symm)

theorem HandleOf.contains {engine : Engine} (here : HandleOf engine self name) :
    engine.collections.contains name = true := by
  rcases here with ⟨collection, found, _⟩
  exact (OrderedMap.contains_iff _ _).mpr ⟨collection, found⟩

theorem effect_handles (owned : world.engine.Owned) {command : Command}
    (effect : World.Effect host world command after) :
    HandleOf after.engine self name ↔ after.engine.collections.contains name = true ∧
      (HandleOf world.engine self name ∨
        world.engine.collections.find? name = none ∧ self = world.engine.nextTag) := by
  have same : after.engine.collections.find? name = world.engine.collections.find? name →
      (HandleOf after.engine self name ↔ after.engine.collections.contains name = true ∧
        (HandleOf world.engine self name ∨
          world.engine.collections.find? name = none ∧ self = world.engine.nextTag)) := by
    intro equal
    constructor
    · rintro ⟨collection, found, tagged⟩
      exact ⟨(OrderedMap.contains_iff _ _).mpr ⟨collection, found⟩,
        Or.inl ⟨collection, equal.symm.trans found, tagged⟩⟩
    · rintro ⟨present, ⟨collection, found, tagged⟩ | ⟨absent, _⟩⟩
      · exact ⟨collection, equal.trans found, tagged⟩
      · rw [OrderedMap.contains, equal, absent] at present
        cases present
  have new : ∀ (new : Bytes) (collection : Collection),
      world.engine.collections.find? new = none → collection.tag = world.engine.nextTag →
      after.engine.collections = world.engine.collections.emplace new collection →
      (HandleOf after.engine self name ↔ after.engine.collections.contains name = true ∧
        (HandleOf world.engine self name ∨
          world.engine.collections.find? name = none ∧ self = world.engine.nextTag)) := by
    intro new collection absent tag equal
    rw [OrderedMap.emplace_of_absent _ _ _ absent] at equal
    by_cases here : name = new
    · have held : after.engine.collections.find? name = some collection := by
        rw [equal, here, OrderedMap.find_insert_self]
      constructor
      · rintro ⟨other, found, tagged⟩
        rw [held] at found
        cases found
        exact ⟨(OrderedMap.contains_iff _ _).mpr ⟨collection, held⟩,
          Or.inr ⟨by rw [here]; exact absent, tagged.symm.trans tag⟩⟩
      · rintro ⟨_, ⟨other, found, _⟩ | ⟨_, isTag⟩⟩
        · rw [here, absent] at found
          cases found
        · exact ⟨collection, held, tag.trans isTag.symm⟩
    · exact same (by rw [equal, OrderedMap.find_insert_of_ne _ _ here])
  cases effect with
  | idle | saved | refused | conflicted | put => exact same rfl
  | created checked absent => exact new _ _ absent rfl rfl
  | loaded read absent =>
      rcases load_ok read with ⟨preamble, records, reader, stages⟩
      exact new _ _ absent (by rw [stages.result]; rfl) rfl
  | @deleted target _ collection found =>
      by_cases here : name = target
      · have gone : (world.engine.collections.erase target).find? name = none := by
          rw [OrderedMap.find_erase, if_pos here]
        constructor
        · rintro ⟨other, held, _⟩
          rw [gone] at held
          cases held
        · rintro ⟨present, _⟩
          rw [OrderedMap.contains, gone] at present
          cases present
      · exact same (OrderedMap.find_erase_of_ne _ here)
  | @operated _ target collection next allocator found operation =>
      by_cases here : name = target
      · have stored := owned.stored _ _ found
        rcases stored.shows owned.sound with ⟨view, shows_⟩
        rcases operation.advances owned.sound stored shows_ with ⟨_, final⟩
        have held : (world.engine.collections.insert target next).find? name = some next := by
          rw [here, OrderedMap.find_insert_self]
        constructor
        · rintro ⟨other, isOther, tagged⟩
          rw [held] at isOther
          cases isOther
          exact ⟨(OrderedMap.contains_iff _ _).mpr ⟨next, held⟩,
            Or.inl ⟨collection, by rw [here]; exact found, final.same.tag.symm.trans tagged⟩⟩
        · rintro ⟨_, ⟨other, known, tagged⟩ | ⟨absent, _⟩⟩
          · rw [here, found] at known
            cases known
            exact ⟨next, held, final.same.tag.trans tagged⟩
          · rw [here, found] at absent
            cases absent
      · exact same (OrderedMap.find_insert_of_ne _ _ here)

end Handles

end VectorVault.Python
