import VectorVault.CollectionIndex
import VectorVault.EngineMemory

/-! The engine against a ledger of what its collections should answer.

The ledger maps a collection's name to the records it should have. It follows
the successful commands and knows nothing of memory, counters or indexes. -/

namespace VectorVault

open MemoryAllocator Collection

abbrev Ledger := OrderedMap Bytes (OrderedMap RecordId RecordView)

namespace Ledger

def update (ledger : Ledger) (name : Bytes)
    (change : OrderedMap RecordId RecordView → OrderedMap RecordId RecordView) : Ledger :=
  match ledger.find? name with
  | some view => ledger.insert name (change view)
  | none => ledger

def apply (ledger : Ledger) : Command → Status → Ledger
  | .createCollection name _ _, .ok _ => ledger.insert name OrderedMap.empty
  | .deleteCollection name _, .ok _ => ledger.erase name
  | .insert name id vec metadata, .ok _ =>
      ledger.update name (fun view => view.insert id ⟨vec, metadata⟩)
  | .insertBatch name records, .ok _ => ledger.update name (fun view => insertedAll view records)
  | .remove name id, .ok _ => ledger.update name (fun view => view.erase id)
  | _, _ => ledger

def replay (ledger : Ledger) (history : List (Command × Status)) : Ledger :=
  history.foldl (fun ledger event => ledger.apply event.1 event.2) ledger

theorem find_update {ledger : Ledger} {name : Bytes} {view : OrderedMap RecordId RecordView}
    (known : ledger.find? name = some view)
    (change : OrderedMap RecordId RecordView → OrderedMap RecordId RecordView) (other : Bytes) :
    (ledger.update name change).find? other =
      if other = name then some (change view) else ledger.find? other := by
  simp only [update, known, OrderedMap.find_insert]
  by_cases here : other = name
  · rw [if_pos here, if_pos here]
  · rw [if_neg here, if_neg here]

theorem find_same {ledger : Ledger} {name : Bytes} {view : OrderedMap RecordId RecordView}
    (known : ledger.find? name = some view) (other : Bytes) :
    ledger.find? other = if other = name then some view else ledger.find? other := by
  by_cases here : other = name
  · rw [if_pos here, here, known]
  · rw [if_neg here]

end Ledger

namespace Engine

/-- Every collection is in the ledger, answers as it says and has its index right. -/
structure Refines (engine : Engine) (ledger : Ledger) : Prop where
  shown : ∀ name collection, engine.collections.find? name = some collection →
    ∃ view, ledger.find? name = some view ∧ collection.Shows engine.allocator view ∧
      collection.Indexed view
  absent : ∀ name, engine.collections.find? name = none → ledger.find? name = none

theorem new_refines (capacity : UInt64) (garbage : Nat → UInt8) :
    (new capacity garbage).Refines OrderedMap.empty :=
  ⟨fun _ _ found => by (cases found), fun _ _ => rfl⟩

variable {engine : Engine} {ledger : Ledger}

theorem Refines.framed (refines : engine.Refines ledger) (owned : engine.Owned)
    {allocator : MemoryAllocator} {tag : Nat} (frame : Frame tag engine.allocator allocator)
    {name : Bytes} {collection : Collection}
    (found : engine.collections.find? name = some collection) (other : collection.tag ≠ tag) :
    ∃ view, ledger.find? name = some view ∧ collection.Shows allocator view ∧
      collection.Indexed view := by
  obtain ⟨view, known, shows_, indexed⟩ := refines.shown name collection found
  have stored := owned.stored name collection found
  have kept := shows_.kept (Same.refl collection) rfl
    (fun _ _ there => stored.kept_frame frame other there)
  exact ⟨view, known, kept, indexed⟩

theorem Refines.update (refines : engine.Refines ledger) (owned : engine.Owned) {name : Bytes}
    {collection next : Collection} {allocator : MemoryAllocator}
    {view : OrderedMap RecordId RecordView} {after : Ledger}
    (found : engine.collections.find? name = some collection)
    (advances : Advances [] engine.allocator allocator collection next view)
    (indexed : next.Indexed view)
    (table : ∀ other, after.find? other = if other = name then some view else ledger.find? other) :
    Refines { engine with
      allocator := allocator
      collections := engine.collections.insert name next } after := by
  constructor
  · intro other held there
    rw [OrderedMap.find_insert] at there
    rw [table other]
    by_cases here : other = name
    · rw [if_pos here] at there ⊢
      cases there
      exact ⟨view, rfl, advances.shows, indexed⟩
    · rw [if_neg here] at there ⊢
      apply refines.framed owned advances.frame there
      intro equal
      exact here (owned.distinct other name held collection there found equal)
  · intro other missing
    rw [OrderedMap.find_insert] at missing
    rw [table other]
    by_cases here : other = name
    · rw [if_pos here] at missing
      cases missing
    · rw [if_neg here] at missing ⊢
      exact refines.absent other missing

theorem Refines.register (refines : engine.Refines ledger) {name : Bytes} {collection : Collection}
    {view : OrderedMap RecordId RecordView} (absent : engine.collections.find? name = none)
    (shows_ : collection.Shows engine.allocator view) (indexed : collection.Indexed view) :
    Refines { engine with
      collections := engine.collections.emplace name collection
      nextTag := engine.nextTag + 1 } (ledger.insert name view) := by
  rw [OrderedMap.emplace_of_absent _ _ _ absent]
  constructor
  · intro other held there
    rw [OrderedMap.find_insert] at there ⊢
    by_cases here : other = name
    · rw [if_pos here] at there ⊢
      cases there
      exact ⟨view, rfl, shows_, indexed⟩
    · rw [if_neg here] at there ⊢
      exact refines.shown other held there
  · intro other missing
    rw [OrderedMap.find_insert] at missing ⊢
    by_cases here : other = name
    · rw [if_pos here] at missing
      cases missing
    · rw [if_neg here] at missing ⊢
      exact refines.absent other missing

theorem createCollection_refines (refines : engine.Refines ledger) (name : Bytes)
    (dimensionality : UInt32) (metric : UInt8) :
    (engine.createCollection name dimensionality metric).2.Refines
      (ledger.apply (.createCollection name dimensionality metric)
        ((engine.createCollection name dimensionality metric).1.map (fun _ => ()))) := by
  unfold createCollection
  split
  · exact refines
  · next config _ =>
      split
      · exact refines
      · next fresh =>
          have absent := OrderedMap.absent_of_not_contains fresh
          apply refines.register absent _ (new_indexed config engine.nextTag)
          intro id
          rfl

theorem deleteCollection_refines (refines : engine.Refines ledger) (owned : engine.Owned)
    (name : Bytes) (fault : Bool) :
    (engine.deleteCollection name fault).2.Refines
      (ledger.apply (.deleteCollection name fault) (engine.deleteCollection name fault).1) := by
  unfold deleteCollection
  cases found : engine.collections.find? name with
  | none => exact refines
  | some collection =>
      simp only
      split
      · exact refines
      · obtain ⟨_, frame, _⟩ := releaseAll_owned owned.sound collection.tag
        simp only [Ledger.apply]
        constructor
        · intro other held there
          rw [OrderedMap.find_erase] at there ⊢
          by_cases here : other = name
          · rw [if_pos here] at there
            cases there
          · rw [if_neg here] at there ⊢
            apply refines.framed owned frame there
            intro equal
            exact here (owned.distinct other name held collection there found equal)
        · intro other missing
          rw [OrderedMap.find_erase] at missing ⊢
          by_cases here : other = name
          · rw [if_pos here]
          · rw [if_neg here] at missing ⊢
            exact refines.absent other missing

end Engine

namespace World

open Engine

variable {D : Type} [FloatOrder D] {host : Host D} {world : World} {ledger : Ledger}

theorem onHandle_refines (owned : world.engine.Owned) (refines : world.engine.Refines ledger)
    {name : Bytes} {after : Status → Ledger}
    {operation : MemoryAllocator → Collection → Run (Status × MemoryAllocator × Collection)}
    (change : Status → OrderedMap RecordId RecordView → OrderedMap RecordId RecordView)
    (total : ∀ collection view, collection.Stored world.engine.allocator [] →
      collection.Shows world.engine.allocator view → collection.Indexed view →
      ∃ status allocator next,
        operation world.engine.allocator collection = .ok (status, allocator, next) ∧
          Advances [] world.engine.allocator allocator collection next (change status view) ∧
          next.Indexed (change status view))
    (table : ∀ status view other, ledger.find? name = some view → (after status).find? other =
      if other = name then some (change status view) else ledger.find? other)
    (missing : ∀ error, after (.error error) = ledger) :
    ∃ status final, world.onHandle name operation = .ok (status, final) ∧
      final.engine.Refines (after status) := by
  cases found : world.engine.collections.find? name with
  | none =>
      refine ⟨.error (noCollection name), world, ?_, ?_⟩
      · simp only [onHandle, onCollection, found]
        rfl
      · rw [missing]
        exact refines
  | some collection =>
      obtain ⟨view, known, shows_, indexed⟩ := refines.shown name collection found
      obtain ⟨status, allocator, next, done, advances, final⟩ :=
        total collection view (owned.stored name collection found) shows_ indexed
      have updated := refines.update owned found advances final
        (fun other => table status view other known)
      refine ⟨status, ⟨_, world.files⟩, ?_, updated⟩
      simp only [onHandle, onCollection, found, done]
      rfl

end World

/-- The commands that reach neither a file nor a search. -/
def Command.InMemory : Command → Prop
  | .query .. => False
  | .saveCollection .. => False
  | .loadCollection .. => False
  | .putFile .. => False
  | _ => True

namespace World

open Engine

variable {D : Type} [FloatOrder D] (host : Host D) {world : World} {ledger : Ledger}

theorem step_refines (owned : world.engine.Owned) (refines : world.engine.Refines ledger)
    {command : Command} (inMemory : command.InMemory) :
    ∃ status after, world.step host command = .ok (status, after) ∧
      after.engine.Refines (ledger.apply command status) := by
  cases command with
  | createCollection name dimensionality metric =>
      exact ⟨_, _, rfl, createCollection_refines refines name dimensionality metric⟩
  | deleteCollection name fault =>
      exact ⟨_, _, rfl, deleteCollection_refines refines owned name fault⟩
  | insert name id vec metadata =>
      apply onHandle_refines owned refines
        (fun status view => inserted view id vec metadata status)
      · intro collection view stored shows_ indexed
        obtain ⟨status, allocator, next, done, final⟩ :=
          insert_total host world.engine.allocator indexed id vec metadata
        exact ⟨status, allocator, next, done, insert_advances owned.sound stored shows_ done, final⟩
      · intro status view other known
        cases status with
        | ok _ => exact Ledger.find_update known _ other
        | error _ => exact Ledger.find_same known other
      · intro error
        rfl
  | insertBatch name records =>
      apply onHandle_refines owned refines (fun status view => insertedBatch view records status)
      · intro collection view stored shows_ indexed
        obtain ⟨status, allocator, next, done, final⟩ :=
          insertBatch_total host world.engine.allocator indexed records
        exact ⟨status, allocator, next, done, insertBatch_advances owned.sound stored shows_ done,
          final⟩
      · intro status view other known
        cases status with
        | ok _ => exact Ledger.find_update known _ other
        | error _ => exact Ledger.find_same known other
      · intro error
        rfl
  | remove name id =>
      apply onHandle_refines owned refines (fun status view => removed view id status)
      · intro collection view stored shows_ indexed
        obtain ⟨status, allocator, next, done, final⟩ :=
          remove_total world.engine.allocator indexed shows_ id
        exact ⟨status, allocator, next, done, remove_advances owned.sound stored shows_ done, final⟩
      · intro status view other known
        cases status with
        | ok _ => exact Ledger.find_update known _ other
        | error _ => exact Ledger.find_same known other
      · intro error
        rfl
  | buildIndex name type params =>
      apply onHandle_refines owned refines (fun _ view => view)
      · intro collection view stored shows_ indexed
        obtain ⟨status, next, done, final⟩ :=
          buildIndex_total host indexed shows_ stored.named type params
        obtain ⟨same, records, count⟩ := buildIndex_ok done
        refine ⟨status, world.engine.allocator, next, ?_,
          stored.reindexed owned.sound shows_ same records count, final⟩
        simp only [done]
        rfl
      · intro status view other known
        cases status <;> exact Ledger.find_same known other
      · intro error
        rfl
  | query => cases inMemory
  | saveCollection => cases inMemory
  | loadCollection => cases inMemory
  | putFile => cases inMemory

/-- Induction over the commands; the ledger replays the history so far. -/
theorem run_refines (commands : List Command) (owned : world.engine.Owned)
    (refines : world.engine.Refines ledger)
    (inMemory : ∀ command ∈ commands, command.InMemory) :
    ∃ statuses after, world.run host commands = .ok (statuses, after) ∧
      statuses.length = commands.length ∧ after.engine.Owned ∧
      after.engine.Refines (ledger.replay (commands.zip statuses)) := by
  induction commands generalizing world ledger with
  | nil => exact ⟨[], world, rfl, rfl, owned, refines⟩
  | cons command rest ih =>
      obtain ⟨status, middle, first, refinesMiddle⟩ :=
        step_refines host owned refines (inMemory command List.mem_cons_self)
      have ownedMiddle := step_owned owned first
      obtain ⟨statuses, after, later, length, ownedAfter, refinesAfter⟩ :=
        ih ownedMiddle refinesMiddle
          (fun other member => inMemory other (List.mem_cons_of_mem command member))
      refine ⟨status :: statuses, after, ?_, by rw [List.length_cons, List.length_cons, length],
        ownedAfter, refinesAfter⟩
      simp only [run, first, bind, Except.bind, later]
      rfl

/-- The collections answer as the ledger of the successful commands says. -/
theorem run_answers (capacity : UInt64) (garbage : Nat → UInt8) (commands : List Command)
    (inMemory : ∀ command ∈ commands, command.InMemory) :
    ∃ statuses after, (new capacity garbage).run host commands = .ok (statuses, after) ∧
      statuses.length = commands.length ∧
      ∀ name, match after.engine.collections.find? name with
        | none => (Ledger.replay OrderedMap.empty (commands.zip statuses)).find? name = none
        | some collection => ∃ view,
            (Ledger.replay OrderedMap.empty (commands.zip statuses)).find? name = some view ∧
              (∀ id, collection.get after.engine.allocator id = .ok (match view.find? id with
                | some record => .ok record
                | none => .error (noSuchRecord id))) ∧
              collection.count = view.size := by
  have owned : (new capacity garbage).engine.Owned := Engine.new_owned capacity garbage
  have refines : (new capacity garbage).engine.Refines OrderedMap.empty :=
    Engine.new_refines capacity garbage
  obtain ⟨statuses, after, done, length, owned, refines⟩ :=
    run_refines host commands owned refines inMemory
  refine ⟨statuses, after, done, length, ?_⟩
  intro name
  cases found : after.engine.collections.find? name with
  | none => exact refines.absent name found
  | some collection =>
      obtain ⟨view, known, shows_, _⟩ := refines.shown name collection found
      have counted := (owned.stored name collection found).counted
      exact ⟨view, known, shows_, counted.trans shows_.size.symm⟩

/-- Two collections in four chunks: a record is overwritten, another removed and its block
used again, one more finds no room, and a collection is deleted and made anew. -/
def sharedArena : List Command :=
  [.createCollection [97] 1 0, .createCollection [98] 1 0, .insert [97] [1] [0] none,
    .insert [98] [1] [4] none, .insert [97] [1] [8] none, .remove [98] [1],
    .insert [97] [2] [12] none, .insert [98] [3] [16] none, .insert [98] [5] [20] none,
    .insert [98] [6] [24] none, .deleteCollection [97] false, .createCollection [97] 1 0,
    .insert [97] [7] [28] none]

theorem run_answers_of_shared_arena :
    ∃ statuses after, (new 256 (fun _ => 0)).run (ExactLine.host []) sharedArena =
        .ok (statuses, after) ∧
      statuses.length = 13 ∧
      ∀ name, match after.engine.collections.find? name with
        | none => (Ledger.replay OrderedMap.empty (sharedArena.zip statuses)).find? name = none
        | some collection => ∃ view,
            (Ledger.replay OrderedMap.empty (sharedArena.zip statuses)).find? name = some view ∧
              (∀ id, collection.get after.engine.allocator id = .ok (match view.find? id with
                | some record => .ok record
                | none => .error (noSuchRecord id))) ∧
              collection.count = view.size :=
  run_answers (ExactLine.host []) 256 (fun _ => 0) sharedArena
    (by simp [sharedArena, Command.InMemory])

end World

end VectorVault
