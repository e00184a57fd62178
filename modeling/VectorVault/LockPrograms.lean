import VectorVault.Types
import VectorVault.Library.LockOrder

/-! The locks of the public operations.

The engine has a mutex, every collection a reader-writer lock and the allocator a
mutex of its own. A call takes them in that order, whatever way through it it
goes. -/

namespace VectorVault

open LockOrder

inductive Lock where
  | engine
  | collection (tag : Nat)
  | allocator
  deriving DecidableEq

namespace Lock

def rank : Lock → Nat
  | .engine => 0
  | .collection _ => 1
  | .allocator => 2

theorem rank_lt (lock : Lock) : lock.rank < 3 := by
  cases lock with
  | engine => exact Nat.zero_lt_succ 2
  | collection tag => exact Nat.lt_succ_of_lt Nat.one_lt_two
  | allocator => exact Nat.lt_succ_self 2

theorem engine_lt_collection (tag : Nat) : engine.rank < (collection tag).rank := Nat.zero_lt_one

theorem collection_lt_allocator (tag : Nat) : (collection tag).rank < allocator.rank :=
  Nat.one_lt_two

theorem engine_lt_allocator : engine.rank < allocator.rank := Nat.zero_lt_two

end Lock

namespace LockProgram

open Lock

abbrev Program := List (Action Lock)

/-- `MemoryAllocator::allocate`, `release`, `release_all` and `stats` -/
def allocatorCall : Program := critical .allocator .exclusive [.work]

def allocatorCalls (times : Nat) : Program :=
  (List.range times).flatMap (fun _ => .work :: allocatorCall) ++ [.work]

section Collection

variable (tag : Nat)

/-- `Collection::insert`: rejected before the lock, out of memory, into a new slot,
or over a record whose block is released. -/
def insert (accepted overwrites : Bool) : Program :=
  .work :: if accepted then
    critical (.collection tag) .exclusive (allocatorCalls (if overwrites then 2 else 1))
  else []

/-- `Collection::insert_batch`: an allocation for each record, and a release for
each record overwritten or each block given back. -/
def insertBatch (accepted : Bool) (allocations releases : Nat) : Program :=
  .work :: if accepted then
    critical (.collection tag) .exclusive (allocatorCalls (allocations + releases))
  else []

/-- `Collection::remove`: nothing to release for an absent identifier, or where the
allocator has no arena. -/
def remove (releases : Bool) : Program :=
  critical (.collection tag) .exclusive (allocatorCalls (if releases then 1 else 0))

def buildIndex : Program := critical (.collection tag) .exclusive [.work]

def read : Program := critical (.collection tag) .shared [.work]

def query (accepted : Bool) : Program := .work :: if accepted then read tag else []

end Collection

section Engine

/-- `Engine::create_collection`: validated before the lock. -/
def createCollection (accepted : Bool) : Program :=
  .work :: if accepted then critical .engine .exclusive [.work] else []

def deleteCollection (deletes : Bool) : Program :=
  critical .engine .exclusive (allocatorCalls (if deletes then 1 else 0))

def listCollections (tags : List Nat) : Program :=
  critical .engine .exclusive (tags.flatMap read)

def getCollection : Program := critical .engine .exclusive [.work]

/-- `Engine::save_collection` captures the collection and writes the file under the
engine's lock. -/
def saveCollection (found : Option Nat) : Program :=
  critical .engine .exclusive (.work :: (found.toList.flatMap read ++ [.work]))

/-- `Engine::load_collection` uses the allocator only where the name is taken. -/
def loadCollection (conflicts : Bool) : Program :=
  critical .engine .exclusive (allocatorCalls (if conflicts then 1 else 0))

end Engine

inductive Call where
  | insert (tag : Nat) (accepted overwrites : Bool)
  | insertBatch (tag : Nat) (accepted : Bool) (allocations releases : Nat)
  | remove (tag : Nat) (releases : Bool)
  | buildIndex (tag : Nat)
  | read (tag : Nat)
  | query (tag : Nat) (accepted : Bool)
  | createCollection (accepted : Bool)
  | deleteCollection (deletes : Bool)
  | listCollections (tags : List Nat)
  | getCollection
  | saveCollection (found : Option Nat)
  | loadCollection (conflicts : Bool)
  | stats

def Call.program : Call → Program
  | .insert tag accepted overwrites => LockProgram.insert tag accepted overwrites
  | .insertBatch tag accepted allocations releases =>
      LockProgram.insertBatch tag accepted allocations releases
  | .remove tag releases => LockProgram.remove tag releases
  | .buildIndex tag => LockProgram.buildIndex tag
  | .read tag => LockProgram.read tag
  | .query tag accepted => LockProgram.query tag accepted
  | .createCollection accepted => LockProgram.createCollection accepted
  | .deleteCollection deletes => LockProgram.deleteCollection deletes
  | .listCollections tags => LockProgram.listCollections tags
  | .getCollection => LockProgram.getCollection
  | .saveCollection found => LockProgram.saveCollection found
  | .loadCollection conflicts => LockProgram.loadCollection conflicts
  | .stats => allocatorCall

def caller (calls : List Call) : Thread Lock := ⟨[], calls.flatMap Call.program⟩

variable {held : List (Lock × Mode)}

theorem allocatorCalls_balanced (times : Nat)
    (above : ∀ other ∈ held, other.1.rank < Lock.allocator.rank) :
    Balanced Lock.rank held (allocatorCalls times) := by
  apply Balanced.append _ balanced_work
  apply balanced_flatMap
  intro _
  have used : Balanced Lock.rank held allocatorCall := balanced_work.critical above
  exact (balanced_work.append used :)

theorem read_balanced (tag : Nat)
    (above : ∀ other ∈ held, other.1.rank < (Lock.collection tag).rank) :
    Balanced Lock.rank held (read tag) :=
  balanced_work.critical above

theorem above_single {lock next : Lock} {mode : Mode} (above : lock.rank < next.rank) :
    ∀ other ∈ [(lock, mode)], other.1.rank < next.rank := by
  intro other member
  rw [List.mem_singleton.mp member]
  exact above

theorem checked_balanced {accepted : Bool} {body : Program}
    (inner : Balanced Lock.rank held body) :
    Balanced Lock.rank held (.work :: if accepted then body else []) := by
  apply Balanced.append balanced_work
  cases accepted with
  | true => exact inner
  | false => exact balanced_nil

theorem writing_balanced (tag times : Nat) :
    Balanced Lock.rank []
      (critical (.collection tag) .exclusive (allocatorCalls times)) :=
  (allocatorCalls_balanced times (above_single (collection_lt_allocator tag))).critical
    (fun _ member => by cases member)

theorem registry_balanced {body : Program}
    (inner : Balanced Lock.rank [(.engine, .exclusive)] body) :
    Balanced Lock.rank [] (critical .engine .exclusive body) :=
  inner.critical (fun _ member => by cases member)

/-- One case for each operation. -/
theorem call_balanced (call : Call) : Balanced Lock.rank [] call.program := by
  cases call with
  | insert tag accepted overwrites => exact checked_balanced (writing_balanced tag _)
  | insertBatch tag accepted allocations releases =>
      exact checked_balanced (writing_balanced tag _)
  | remove tag releases => exact writing_balanced tag _
  | buildIndex tag => exact balanced_work.critical (fun _ member => by cases member)
  | read tag => exact read_balanced tag (fun _ member => by cases member)
  | query tag accepted =>
      exact checked_balanced (read_balanced tag (fun _ member => by cases member))
  | createCollection accepted => exact checked_balanced (registry_balanced balanced_work)
  | deleteCollection deletes =>
      exact registry_balanced (allocatorCalls_balanced _ (above_single engine_lt_allocator))
  | listCollections tags =>
      exact registry_balanced (balanced_flatMap tags
        (fun tag => read_balanced tag (above_single (engine_lt_collection tag))))
  | getCollection => exact registry_balanced balanced_work
  | saveCollection found =>
      apply registry_balanced
      apply Balanced.append balanced_work
      apply Balanced.append _ balanced_work
      exact balanced_flatMap _ (fun tag => read_balanced tag (above_single (engine_lt_collection tag)))
  | loadCollection conflicts =>
      exact registry_balanced (allocatorCalls_balanced _ (above_single engine_lt_allocator))
  | stats => exact balanced_work.critical (fun _ member => by cases member)

theorem caller_ordered (calls : List Call) :
    Ordered Lock.rank (caller calls).held (caller calls).program := by
  have ordered := balanced_flatMap calls call_balanced [] rfl
  rw [List.append_nil] at ordered
  exact ordered

/-- Any number of threads, each making any calls one after the other, under any fair
choice of the locks: as long as a call is not done, some thread can go on. -/
theorem calls_never_deadlock {T : Type} [DecidableEq T] {policy : Policy T Lock}
    (fair : policy.Fair) (calls : T → List Call) {state : T → Thread Lock}
    (reaches : Reaches policy (fun thread => caller (calls thread)) state) {thread : T}
    (unfinished : (state thread).program ≠ []) : ∃ after, Step policy state after :=
  deadlock_free fair Lock.rank_lt (fun thread => caller_ordered (calls thread)) reaches unfinished

def contended (batch : Bool) : List Call :=
  if batch then [.insertBatch 1 true 2 0] else [.listCollections [1]]

/-- The batch is inside the allocator, and the listing holds the engine and waits for the
collection. -/
theorem calls_never_deadlock_of_contention :
    ∃ state after, Reaches (fun _ _ _ _ => True) (fun thread => caller (contended thread)) state ∧
      (state true).held = [(.allocator, .exclusive), (.collection 1, .exclusive)] ∧
      (state false).held = [(.engine, .exclusive)] ∧
      Waits state false (.collection 1) .shared ∧ ¬ Compatible state false (.collection 1) .shared ∧
      Step (fun _ _ _ _ => True) state after := by
  have alone : ∀ {state : Bool → Thread Lock} {thread : Bool} {lock : Lock} {mode : Mode},
      (∀ held ∈ (state (!thread)).held, held.1 ≠ lock) → Compatible state thread lock mode := by
    intro state thread lock mode apart other different held member isLock
    rw [Bool.eq_not.mpr different] at member
    exact absurd isLock (apart held member)
  have a := Reaches.step (@Reaches.refl Lock Bool _ _ (fun _ _ _ _ => True)
    (fun thread => caller (contended thread))) (@Step.work _ _ _ _ _ _ true _ rfl)
  have b := a.step (@Step.acquire _ _ _ _ _ _ true _ _ _ rfl
    (alone (fun _ member => by cases member)) trivial)
  have c := b.step (@Step.work _ _ _ _ _ _ true _ rfl)
  have d := c.step (@Step.acquire _ _ _ _ _ _ true _ _ _ rfl
    (alone (fun _ member => by cases member)) trivial)
  have e := d.step (@Step.acquire _ _ _ _ _ _ false _ _ _ rfl
    (alone (fun held member => by
      rcases List.mem_cons.mp member with same | later
      · rw [same]
        decide
      · rw [List.mem_singleton.mp later]
        decide)) trivial)
  rcases @calls_never_deadlock Bool _ (fun _ _ _ _ => True)
    (fun _ _ thread mode waits _ => ⟨thread, mode, waits, trivial⟩) contended _ e true
    (fun none => by cases none) with ⟨after, moves⟩
  refine ⟨_, after, e, rfl, rfl, ⟨_, rfl⟩, ?_, moves⟩
  intro compatible
  have shared := (compatible true (by decide) (.collection 1, .exclusive)
    (List.mem_cons_of_mem _ List.mem_cons_self) rfl).1
  cases shared

end LockProgram

end VectorVault
