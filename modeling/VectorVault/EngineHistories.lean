import VectorVault.EngineViews
import VectorVault.EngineConfiguration

/-! Histories of engines that read no file but those an engine wrote.

A file may have been written by an engine of another history. -/

namespace VectorVault

open MemoryAllocator Collection PersistenceManager

/-- The commands of an engine; a file from elsewhere is none of them. -/
def Command.Own : Command → Prop
  | .putFile .. => False
  | _ => True

instance (command : Command) : Decidable command.Own :=
  match command with
  | .putFile .. => .isFalse id
  | .createCollection .. | .deleteCollection .. | .insert .. | .insertBatch .. | .remove ..
  | .buildIndex .. | .query .. | .saveCollection .. | .loadCollection .. => .isTrue trivial

namespace Engine

def Within (limits : MemoryAllocator → Collection → Prop) (engine : Engine) : Prop :=
  ∀ name collection, engine.collections.find? name = some collection →
    limits engine.allocator collection

instance (limits : MemoryAllocator → Collection → Prop)
    [∀ allocator collection, Decidable (limits allocator collection)] (engine : Engine) :
    Decidable (engine.Within limits) :=
  decidable_of_iff (∀ entry ∈ engine.collections.entries, limits engine.allocator entry.2) <| by
    simp only [Within, OrderedMap.find_eq_some_iff, Prod.forall]

end Engine

namespace World

variable {D : Type} [FloatOrder D] {host : Host D} {world : World}
  {limits : MemoryAllocator → Collection → Prop}

variable (host limits) in
/-- The worlds an engine comes to by its own commands, within the limits. -/
inductive History : World → Prop
  | start (capacity : UInt64) (garbage : Nat → UInt8) : History (new capacity garbage)
  | step {world after : World} {command : Command} {status : Status} (earlier : History world)
      (own : command.Own) (done : world.step host command = .ok (status, after))
      (within : after.engine.Within limits) : History after
  | copied {world other : World} (earlier : History world) (elsewhere : History other)
      (path source : Bytes) :
      History { world with files := world.files.insert path (other.fileAt source) }

variable (host limits) in
/-- The world after a list of own commands that come through within the limits. -/
def follow [∀ allocator collection, Decidable (limits allocator collection)] :
    World → List Command → Option World
  | world, [] => some world
  | world, command :: rest =>
      match world.step host command with
      | .ok (_, after) =>
          if command.Own ∧ after.engine.Within limits then follow after rest else none
      | .error _ => none

theorem History.follow [∀ allocator collection, Decidable (limits allocator collection)]
    {commands : List Command} {after : World} (earlier : History host limits world)
    (followed : world.follow host limits commands = some after) : History host limits after := by
  induction commands generalizing world with
  | nil =>
      cases followed
      exact earlier
  | cons command rest ih =>
      unfold World.follow at followed
      split at followed
      · next status next done =>
          split at followed
          · next fine => exact ih (earlier.step fine.1 done fine.2) followed
          · cases followed
      · cases followed

theorem exists_of_followed [∀ allocator collection, Decidable (limits allocator collection)]
    {capacity : UInt64} {garbage : Nat → UInt8} {commands : List Command} {name : Bytes}
    {holds : World → Collection → Bool}
    (told : ((new capacity garbage).follow host limits commands).any (fun after =>
      (after.engine.collections.find? name).any (fun collection => holds after collection)) = true) :
    ∃ after collection, History host limits after ∧
      after.engine.collections.find? name = some collection ∧ holds after collection = true := by
  obtain ⟨after, followed, told⟩ := (Option.any_eq_true _ _).mp told
  obtain ⟨collection, found, facts⟩ := (Option.any_eq_true _ _).mp told
  have start : History host limits (new capacity garbage) := .start capacity garbage
  exact ⟨after, collection, start.follow followed, found, facts⟩

theorem History.within (history : History host limits world) : world.engine.Within limits := by
  induction history with
  | start capacity garbage =>
      intro name collection found
      cases found
  | step _ _ _ within _ => exact within
  | copied _ _ _ _ within _ => exact within

def Files (genuine : FileContent → Prop) (world : World) : Prop :=
  ∀ path content, world.fileAt path = .regular content → genuine content

variable {genuine : FileContent → Prop}

theorem fileAt_insert (world : World) (path other : Bytes) (file : SnapshotFile) :
    ({ world with files := world.files.insert path file } : World).fileAt other =
      if other = path then file else world.fileAt other := by
  simp only [fileAt, OrderedMap.find_insert]
  split
  · rfl
  · rfl

theorem Files.insert (files : world.Files genuine) {path : Bytes} {file : SnapshotFile}
    (good : ∀ content, file = .regular content → genuine content) :
    Files genuine { world with files := world.files.insert path file } := by
  intro other content isFile
  rw [fileAt_insert] at isFile
  split at isFile
  · exact good content isFile
  · exact files other content isFile

section Keeps

variable {holds : Collection → OrderedMap RecordId RecordView → Prop}

theorem History.keeps (history : History host limits world)
    (fresh : ∀ config tag, holds (Collection.new config tag) OrderedMap.empty)
    (operates : ∀ allocator collection next allocator' view,
      Operated host allocator collection allocator' next → allocator.Sound →
      collection.Stored allocator [] → collection.Shows allocator view → holds collection view →
      ∃ viewAfter, Advances [] allocator allocator' collection next viewAfter ∧
        holds next viewAfter)
    (saves : ∀ (allocator : MemoryAllocator) (collection : Collection) view
      (content : FileContent), collection.config.Valid → collection.records.find? [] = none →
      collection.Shows allocator view → holds collection view → limits allocator collection →
      image allocator collection = .ok content.bytes → genuine content)
    (loads : ∀ path allocator content tag collection, genuine content →
      load path allocator (.regular content) tag = .ok (.ok collection) →
      ∃ view, collection.Shows allocator view ∧ holds collection view) :
    world.engine.Owned ∧ world.engine.Configured ∧ world.engine.Each holds ∧
      world.Files genuine := by
  induction history with
  | start capacity garbage =>
      refine ⟨Engine.new_owned capacity garbage, Engine.new_configured capacity garbage,
        Engine.new_each capacity garbage, ?_⟩
      intro path content isFile
      cases isFile
  | @step world after command status earlier own done within kept =>
      obtain ⟨owned, configured, each, files⟩ := kept
      have effect := step_effect done
      refine ⟨effect_owned owned effect, effect_configured owned configured effect, ?_, ?_⟩
      · apply effect_each owned each fresh _ _ effect
        · intro collection next allocator view operated stored shows_ held
          exact operates _ _ _ _ _ operated owned.sound stored shows_ held
        · intro path collection _ read _
          obtain ⟨_, _, _, stages⟩ := load_ok read
          obtain ⟨content, isFile, _⟩ := stages.accepted.content
          rw [isFile] at read
          exact loads _ _ _ _ _ (files path content isFile) read
      · cases effect with
        | idle => exact files
        | created => exact files
        | deleted => exact files
        | operated => exact files
        | saved found encoded =>
            obtain ⟨view, shows_, held⟩ := each _ _ found
            apply files.insert
            intro content isFile
            cases isFile
            exact saves _ _ view _ (configured _ _ found).1 (owned.stored _ _ found).named shows_
              held (earlier.within _ _ found) encoded
        | refused => exact files
        | conflicted => exact files
        | loaded => exact files
        | put => exact own.elim
  | @copied world other earlier elsewhere path source kept keptOther =>
      obtain ⟨owned, configured, each, files⟩ := kept
      exact ⟨owned, configured, each,
        files.insert (fun content isFile => keptOther.2.2.2 source content isFile)⟩

end Keeps

end World

end VectorVault
