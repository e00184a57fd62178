import VectorVault.EngineMemory

/-! Properties of what every registered collection shows.

Work on one collection leaves what the others show as it is, so a property that
the operations of a collection keep is kept by every command. -/

namespace VectorVault

open MemoryAllocator Collection PersistenceManager

namespace Engine

def Each (holds : Collection → OrderedMap RecordId RecordView → Prop) (engine : Engine) : Prop :=
  ∀ name collection, engine.collections.find? name = some collection →
    ∃ view, collection.Shows engine.allocator view ∧ holds collection view

variable {holds : Collection → OrderedMap RecordId RecordView → Prop} {engine : Engine}

theorem new_each (capacity : UInt64) (garbage : Nat → UInt8) : (new capacity garbage).Each holds :=
  fun _ _ found => by (cases found)

theorem Each.framed (each : engine.Each holds) (owned : engine.Owned) {tag : Nat}
    {allocator : MemoryAllocator} (frame : Frame tag engine.allocator allocator) {name : Bytes}
    {collection : Collection} (found : engine.collections.find? name = some collection)
    (other : collection.tag ≠ tag) :
    ∃ view, collection.Shows allocator view ∧ holds collection view := by
  obtain ⟨view, shows_, held⟩ := each name collection found
  have stored := owned.stored name collection found
  exact ⟨view, shows_.kept (Same.refl collection) rfl
    (fun _ _ there => stored.kept_frame frame other there), held⟩

theorem Each.update (each : engine.Each holds) (owned : engine.Owned) {name : Bytes}
    {collection next : Collection} {allocator : MemoryAllocator}
    {view : OrderedMap RecordId RecordView}
    (found : engine.collections.find? name = some collection)
    (advances : Advances [] engine.allocator allocator collection next view)
    (held : holds next view) :
    Each holds { engine with
      allocator := allocator
      collections := engine.collections.insert name next } := by
  intro other there isThere
  rw [OrderedMap.find_insert] at isThere
  by_cases here : other = name
  · rw [if_pos here] at isThere
    cases isThere
    exact ⟨view, advances.shows, held⟩
  · rw [if_neg here] at isThere
    apply each.framed owned advances.frame isThere
    intro equal
    exact here (owned.distinct other name there collection isThere found equal)

theorem Each.register (each : engine.Each holds) {name : Bytes} {collection : Collection}
    {view : OrderedMap RecordId RecordView} (absent : engine.collections.find? name = none)
    (shows_ : collection.Shows engine.allocator view) (held : holds collection view) :
    Each holds { engine with
      collections := engine.collections.emplace name collection
      nextTag := engine.nextTag + 1 } := by
  rw [OrderedMap.emplace_of_absent _ _ _ absent]
  intro other there isThere
  rw [OrderedMap.find_insert] at isThere
  by_cases here : other = name
  · rw [if_pos here] at isThere
    cases isThere
    exact ⟨view, shows_, held⟩
  · rw [if_neg here] at isThere
    exact each other there isThere

theorem Each.delete (each : engine.Each holds) (owned : engine.Owned) {name : Bytes}
    {collection : Collection} (found : engine.collections.find? name = some collection) :
    Each holds { engine with
      allocator := engine.allocator.releaseAll collection.tag
      collections := engine.collections.erase name } := by
  obtain ⟨_, frame, _⟩ := releaseAll_owned owned.sound collection.tag
  intro other there isThere
  rw [OrderedMap.find_erase] at isThere
  by_cases here : other = name
  · rw [if_pos here] at isThere
    cases isThere
  · rw [if_neg here] at isThere
    apply each.framed owned frame isThere
    intro equal
    exact here (owned.distinct other name there collection isThere found equal)

theorem shows_empty (allocator : MemoryAllocator) (config : CollectionConfig) (tag : Nat) :
    (Collection.new config tag).Shows allocator OrderedMap.empty :=
  shows_of (fun _ _ found => by (cases found)) (fun _ _ => rfl)

end Engine

namespace World

variable {D : Type} [FloatOrder D] {host : Host D} {world after : World} {command : Command}
  {holds : Collection → OrderedMap RecordId RecordView → Prop}

theorem effect_each (owned : world.engine.Owned) (each : world.engine.Each holds)
    (fresh : ∀ config tag, holds (Collection.new config tag) OrderedMap.empty)
    (operates : ∀ collection next allocator view,
      Operated host world.engine.allocator collection allocator next →
      collection.Stored world.engine.allocator [] →
      collection.Shows world.engine.allocator view → holds collection view →
      ∃ viewAfter, Advances [] world.engine.allocator allocator collection next viewAfter ∧
        holds next viewAfter)
    (loads : ∀ path collection, command = .loadCollection path →
      load path world.engine.allocator (world.fileAt path) world.engine.nextTag =
        .ok (.ok collection) →
      world.engine.collections.find? collection.config.name = none →
      ∃ view, collection.Shows world.engine.allocator view ∧ holds collection view)
    (effect : Effect host world command after) : after.engine.Each holds := by
  cases effect with
  | idle => exact each
  | created checked absent =>
      exact each.register absent (Engine.shows_empty _ _ _) (fresh _ _)
  | deleted found => exact each.delete owned found
  | operated found operation =>
      obtain ⟨view, shows_, held⟩ := each _ _ found
      obtain ⟨viewAfter, advances, heldAfter⟩ :=
        operates _ _ _ view operation (owned.stored _ _ found) shows_ held
      exact each.update owned found advances heldAfter
  | saved => exact each
  | refused => exact each
  | conflicted =>
      intro name collection found
      have below := owned.tags name collection found
      obtain ⟨_, frame, _⟩ := releaseAll_owned owned.sound world.engine.nextTag
      exact each.framed owned frame found (by omega)
  | loaded read absent =>
      obtain ⟨view, shows_, held⟩ := loads _ _ rfl read absent
      exact each.register absent shows_ held
  | put => exact each

theorem run_each {capacity : UInt64} {garbage : Nat → UInt8} {commands : List Command}
    {statuses : List Status} (fresh : ∀ config tag, holds (Collection.new config tag) OrderedMap.empty)
    (operates : ∀ allocator collection next allocator' view,
      Operated host allocator collection allocator' next → allocator.Sound →
      collection.Stored allocator [] → collection.Shows allocator view → holds collection view →
      ∃ viewAfter, Advances [] allocator allocator' collection next viewAfter ∧
        holds next viewAfter)
    (loads : ∀ path allocator file tag collection,
      load path allocator file tag = .ok (.ok collection) →
      ∃ view, collection.Shows allocator view ∧ holds collection view)
    (done : (new capacity garbage).run host commands = .ok (statuses, world)) :
    world.engine.Owned ∧ world.engine.Each holds := by
  have start : (new capacity garbage).engine.Owned ∧ (new capacity garbage).engine.Each holds :=
    ⟨Engine.new_owned capacity garbage, Engine.new_each capacity garbage⟩
  apply run_keeps _ start done
  intro before command next _ kept effect
  obtain ⟨owned, each⟩ := kept
  have eachAfter := effect_each owned each fresh
    (fun collection next allocator view operated stored shows_ held =>
      operates _ collection next allocator view operated owned.sound stored shows_ held)
    (fun path collection _ read _ => loads path _ _ _ collection read) effect
  exact ⟨effect_owned owned effect, eachAfter⟩

section Loading

theorem step_load {world : World} {path : Bytes} {collection : Collection}
    (read : load path world.engine.allocator (world.fileAt path) world.engine.nextTag =
      .ok (.ok collection))
    (absent : world.engine.collections.find? collection.config.name = none) :
    ∃ after, world.step host (.loadCollection path) = .ok (.ok (), after) := by
  have fresh := (OrderedMap.contains_eq_false_iff _ _).mpr absent
  simp only [step, Engine.loadCollection, read, bind, Except.bind, fresh, Bool.false_eq_true,
    if_false]
  exact ⟨_, rfl⟩

variable (host) in
/-- Whenever a run comes to a load that succeeds, the file there is good. -/
def LoadsOnly (good : Bytes → SnapshotFile → Prop) : World → List Command → Prop
  | _, [] => True
  | world, command :: rest =>
      (∀ path after, command = .loadCollection path →
        world.step host command = .ok (.ok (), after) → good path (world.fileAt path)) ∧
        ∀ status after, world.step host command = .ok (status, after) → LoadsOnly good after rest

theorem run_each_loading {good : Bytes → SnapshotFile → Prop} {world after : World}
    {commands : List Command} {statuses : List Status}
    (fresh : ∀ config tag, holds (Collection.new config tag) OrderedMap.empty)
    (operates : ∀ allocator collection next allocator' view,
      Operated host allocator collection allocator' next → allocator.Sound →
      collection.Stored allocator [] → collection.Shows allocator view → holds collection view →
      ∃ viewAfter, Advances [] allocator allocator' collection next viewAfter ∧
        holds next viewAfter)
    (carries : ∀ path allocator file tag collection, good path file →
      load path allocator file tag = .ok (.ok collection) →
      ∃ view, collection.Shows allocator view ∧ holds collection view)
    (owned : world.engine.Owned) (each : world.engine.Each holds)
    (loads : LoadsOnly host good world commands)
    (done : world.run host commands = .ok (statuses, after)) :
    after.engine.Owned ∧ after.engine.Each holds := by
  induction commands generalizing world statuses with
  | nil =>
      cases done
      exact ⟨owned, each⟩
  | cons command rest ih =>
      rcases bind_ok done with ⟨⟨status, middle⟩, first, done⟩
      rcases bind_ok done with ⟨⟨later, final⟩, second, result⟩
      cases result
      have effect := step_effect first
      apply ih (effect_owned owned effect) _ (loads.2 status middle first) second
      apply effect_each owned each fresh _ _ effect
      · intro collection next allocator view operated stored shows_ held
        exact operates _ _ _ _ _ operated owned.sound stored shows_ held
      · intro path collection isLoad read absent
        rcases @step_load D _ host world path collection read absent with ⟨reached, accepted⟩
        rw [← isLoad] at accepted
        exact carries _ _ _ _ _ (loads.1 path reached isLoad accepted) read

end Loading

end World

end VectorVault
