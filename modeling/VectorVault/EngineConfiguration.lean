import VectorVault.EngineMemory

/-! Registered collections are validly configured.

Creation checks the configuration it is given; a load checks the one it reads
from the file. No operation changes it. -/

namespace VectorVault

open PersistenceManager

structure CollectionConfig.Valid (config : CollectionConfig) : Prop where
  named : config.name ≠ []
  short : config.name.length ≤ 255
  positive : 1 ≤ config.dimensionality.toNat
  bounded : config.dimensionality.toNat ≤ 65536

theorem Collection.vectorBytes_pos {collection : Collection} (valid : collection.config.Valid) :
    0 < collection.vectorBytes := by
  have positive := valid.positive
  rw [Collection.vectorBytes]
  omega

namespace Engine

theorem checkConfig_valid {name : Bytes} {dimensionality : UInt32} {metric : UInt8}
    {config : CollectionConfig} (checked : checkConfig name dimensionality metric = .ok config) :
    config.Valid ∧ config.name = name := by
  unfold checkConfig at checked
  split at checked
  · cases checked
  · next named =>
      split at checked
      · cases checked
      · next sized =>
          split at checked
          · cases checked
            refine ⟨⟨?_, ?_, ?_, ?_⟩, rfl⟩
            · exact fun empty => named (Or.inl empty)
            · simp only
              omega
            · simp only
              omega
            · simp only
              omega
          · cases checked

def Configured (engine : Engine) : Prop :=
  ∀ name collection, engine.collections.find? name = some collection →
    collection.config.Valid ∧ collection.config.name = name

theorem new_configured (capacity : UInt64) (garbage : Nat → UInt8) :
    (new capacity garbage).Configured :=
  fun _ _ found => by (cases found)

end Engine

namespace PersistenceManager

theorem readName_ok {path : Bytes} {header : Snapshot.Header} {reader after : Snapshot.ByteReader}
    {name : Bytes} (named : readName path header reader = .ok (name, after)) :
    name ≠ [] ∧ name.length ≤ 255 := by
  obtain ⟨_, _, named⟩ := bind_ok named
  obtain ⟨_, checked, named⟩ := bind_ok named
  cases named
  exact require_ok checked

theorem Loaded.configured {path : Bytes} {allocator : MemoryAllocator} {file : SnapshotFile}
    {tag : Nat} {collection : Collection} {preamble : Preamble}
    {records : OrderedMap RecordId RecordSlot} {reader : Snapshot.ByteReader}
    (loaded : Loaded path allocator file tag collection preamble records reader) :
    collection.config.Valid := by
  have named := readName_ok loaded.accepted.named
  have sized := loaded.accepted.dimensionality
  rw [loaded.result]
  exact ⟨named.1, named.2, sized.1, sized.2⟩

end PersistenceManager

namespace World

variable {D : Type} [FloatOrder D] {host : Host D} {world : World}

theorem effect_configured (owned : world.engine.Owned) (configured : world.engine.Configured)
    {command : Command} {after : World} (effect : Effect host world command after) :
    after.engine.Configured := by
  have registered : ∀ {name : Bytes} {collection : Collection},
      world.engine.collections.find? name = none →
      collection.config.Valid ∧ collection.config.name = name →
      ∀ other held, (world.engine.collections.emplace name collection).find? other = some held →
        held.config.Valid ∧ held.config.name = other := by
    intro name collection absent valid other held there
    rw [OrderedMap.emplace_of_absent _ _ _ absent, OrderedMap.find_insert] at there
    split at there
    · next here =>
        cases there
        rw [here]
        exact valid
    · exact configured other held there
  cases effect with
  | idle => exact configured
  | created checked absent => exact registered absent (Engine.checkConfig_valid checked)
  | deleted found =>
      intro other held there
      rw [OrderedMap.find_erase] at there
      split at there
      · cases there
      · exact configured other held there
  | operated found operation =>
      have stored := owned.stored _ _ found
      obtain ⟨view, shows_⟩ := stored.shows owned.sound
      obtain ⟨_, final⟩ := operation.advances owned.sound stored shows_
      intro other held there
      rw [OrderedMap.find_insert] at there
      split at there
      · next here =>
          cases there
          rw [final.same.config, here]
          exact configured _ _ found
      · exact configured other held there
  | saved => exact configured
  | refused => exact configured
  | conflicted => exact configured
  | loaded read absent =>
      obtain ⟨preamble, records, reader, stages⟩ := load_ok read
      exact registered absent ⟨stages.configured, rfl⟩
  | put => exact configured

theorem run_configured {capacity : UInt64} {garbage : Nat → UInt8} {commands : List Command}
    {statuses : List Status}
    (done : (new capacity garbage).run host commands = .ok (statuses, world)) :
    world.engine.Owned ∧ world.engine.Configured := by
  have start : (new capacity garbage).engine.Owned ∧ (new capacity garbage).engine.Configured :=
    ⟨Engine.new_owned capacity garbage, Engine.new_configured capacity garbage⟩
  apply run_keeps _ start done
  intro before command next _ kept effect
  exact ⟨effect_owned kept.1 effect, effect_configured kept.1 kept.2 effect⟩

end World

end VectorVault
