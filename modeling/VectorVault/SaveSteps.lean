import VectorVault.Persistence
import Mathlib.Data.List.TakeWhile
import Mathlib.Logic.Function.Basic

/-! The file-system steps of `save`, one save among others.

Each call writes a file named after a reading of the clock and a counter the
process shares, then renames it over the target. Every call into the system may
fail, and a buffer may reach the file in part before it is flushed. -/

namespace VectorVault

structure Path where
  parent : Bytes
  filename : Bytes
  deriving DecidableEq, Repr

namespace Path

/-- The directory a file lies in; a bare name lies in the current one. -/
def directory (path : Path) : Bytes := if path.parent = [] then text "." else path.parent

/-- The directory and the name under which the system knows a file. -/
def entry (path : Path) : Bytes × Bytes := (path.directory, path.filename)

def string (path : Path) : Bytes :=
  if path.parent = [] ∨ path.parent.getLast? = some 47 then path.parent ++ path.filename
  else path.parent ++ text "/" ++ path.filename

end Path

/-- What the steady clock reads when the calls take their numbers. It advances
before the 64-bit counter comes around. -/
structure SteadyClock where
  now : Nat → Nat
  advances : ∀ first second, first ≠ second → first % word = second % word →
    now first ≠ now second

instance : Inhabited SteadyClock := ⟨⟨id, fun _ _ distinct _ => distinct⟩⟩

namespace PersistenceManager

def makeTempPath (target : Path) (now n : Nat) : Path :=
  ⟨target.directory,
    target.filename ++ text ".vvtmp-" ++ decimal now ++ text "-" ++ decimal n⟩

structure Save where
  data : CollectionSnapshotData
  image : Bytes
  encoded : encode data = .ok image

/-- Where a call stands. `call` is its number among the calls of the process. -/
inductive Phase where
  | waiting
  | opening (call : Nat)
  | writing (call : Nat)
  | flushing (call : Nat)
  | syncing (call : Nat)
  | closing (call : Nat) (ok : Bool)
  | moving (call : Nat)
  | removing (call : Nat) (error : Error)
  | moved (call : Nat)
  | refused (call : Nat) (error : Error)
  | failed (call : Nat) (error : Error) (removed : Bool)
  | done (call : Nat)

def Phase.call? : Phase → Option Nat
  | .waiting => none
  | .opening call | .writing call | .flushing call | .syncing call | .closing call _
  | .moving call | .removing call _ | .moved call | .refused call _ | .failed call _ _
  | .done call => some call

def Phase.status? : Phase → Option Status
  | .refused _ error | .failed _ error _ => some (.error error)
  | .done _ => some (.ok ())
  | _ => none

/-- How a system call ends, and how many bytes of the image have reached the file. -/
structure Outcome where
  succeeds : Bool
  reached : Nat

structure Process (ι : Type) where
  target : Path
  saves : ι → Save
  clock : SteadyClock

/-- `counter` counts the numbers given out, to saves to other targets too. -/
structure SaveState (ι : Type) where
  files : Bytes × Bytes → Option Bytes
  counter : Nat
  phase : ι → Phase
  stopped : Bool

namespace Process

variable {ι : Type} [DecidableEq ι] (process : Process ι)

def temp (call : Nat) : Path :=
  makeTempPath process.target (process.clock.now call) (call % word)

def notWritten (call : Nat) : Error := PersistenceManager.notWritten (process.temp call).string

def notRenamed : Error := PersistenceManager.notRenamed process.target.string

/-- A prefix of the image no shorter than what the file holds already. -/
def grown (image : Bytes) (outcome : Outcome) (content : Option Bytes) : Bytes :=
  image.take (max (content.getD []).length outcome.reached)

def advance (image : Bytes) (outcome : Outcome) (files : Bytes × Bytes → Option Bytes) :
    Phase → Phase × (Bytes × Bytes → Option Bytes)
  | .opening call =>
      if outcome.succeeds then
        (.writing call, Function.update files (process.temp call).entry (some []))
      else (.refused call (process.notWritten call), files)
  | .writing call =>
      let content := grown image outcome (files (process.temp call).entry)
      -- An empty image is not written, and nothing can fail then.
      (if outcome.succeeds ∨ image = [] then .flushing call else .closing call false,
        Function.update files (process.temp call).entry (some content))
  | .flushing call =>
      let content := grown image outcome (files (process.temp call).entry)
      if outcome.succeeds then
        (.syncing call, Function.update files (process.temp call).entry (some image))
      else (.closing call false, Function.update files (process.temp call).entry (some content))
  | .syncing call => (.closing call outcome.succeeds, files)
  | .closing call true =>
      (if outcome.succeeds then .moving call else .removing call (process.notWritten call), files)
  | .closing call false =>
      let content := grown image outcome (files (process.temp call).entry)
      (.removing call (process.notWritten call),
        Function.update files (process.temp call).entry (some content))
  | .moving call =>
      match files (process.temp call).entry with
      | none => (.removing call process.notRenamed, files)
      | some content =>
          if outcome.succeeds then
            (.moved call, Function.update (Function.update files process.target.entry
              (some content)) (process.temp call).entry none)
          else (.removing call process.notRenamed, files)
  | .removing call error =>
      (.failed call error outcome.succeeds,
        if outcome.succeeds then Function.update files (process.temp call).entry none else files)
  -- The directory is flushed as well as can be; whether that works is not looked at.
  | .moved call => (.done call, files)
  | phase => (phase, files)

/-- `elsewhere` is a save to another target, which takes a number of its own. -/
inductive Event (ι : Type) where
  | perform (save : ι) (outcome : Outcome)
  | elsewhere
  | stop

def step (state : SaveState ι) : Event ι → SaveState ι
  | .stop => { state with stopped := true }
  | .elsewhere =>
      if state.stopped then state else { state with counter := state.counter + 1 }
  | .perform save outcome =>
      if state.stopped then state
      else
        match (state.phase save).call? with
        -- A call that waits takes its number first.
        | none =>
            { state with
              counter := state.counter + 1
              phase := Function.update state.phase save (.opening state.counter) }
        | some _ =>
            let next := process.advance (process.saves save).image outcome state.files
              (state.phase save)
            { state with
              files := next.2
              phase := Function.update state.phase save next.1 }

def start (files : Bytes × Bytes → Option Bytes) : SaveState ι :=
  ⟨files, 0, fun _ => .waiting, false⟩

def run (state : SaveState ι) (events : List (Event ι)) : SaveState ι :=
  events.foldl process.step state

end Process

end PersistenceManager

end VectorVault
