import VectorVault.ConcurrentSaves
import VectorVault.DurableEngine

/-! One path that calls save to and load from at the same time.

The calls see a register that holds a collection: a save puts its collection into it
all at once, by the rename, or leaves it alone, and a load gets the collection that
was there when it opened the file. What was renamed over its name stays open. -/

namespace VectorVault.SnapshotRegister

open Linearizability PersistenceManager PersistenceManager.Process Durable
open Concurrent (Entry)

inductive Access (ι κ : Type) where
  | save (save : ι)
  | load (load : κ)
  deriving DecidableEq

inductive Answer where
  | saved (status : Status)
  | loaded (result : Result Collection)

inductive Loading where
  | waiting
  | opening
  | opened (result : Result Collection)
  | returned (result : Result Collection)

structure Loader where
  allocator : MemoryAllocator
  tag : Nat

/-- `answered` are the saves that have returned to their callers. -/
structure Register (ι κ : Type) where
  saves : SaveState ι
  answered : ι → Bool
  loads : κ → Loading

/-- What a save will have come to once it returns, when that is settled. -/
def settled? : Phase → Option Status
  | .moved _ | .done _ => some (.ok ())
  | .refused _ error | .failed _ error _ => some (.error error)
  | _ => none

section Stages

variable {ι κ : Type}

def saveStage (save : ι) (answered : Bool) : Phase → Stage (Access ι κ) Answer
  | .waiting => .idle
  | phase =>
      match settled? phase with
      | none => .invoked (.save save)
      | some status =>
          if answered then .responded (.save save) (.saved status)
          else .taken (.save save) (.saved status)

def loadStage (load : κ) : Loading → Stage (Access ι κ) Answer
  | .waiting => .idle
  | .opening => .invoked (.load load)
  | .opened result => .taken (.load load) (.loaded result)
  | .returned result => .responded (.load load) (.loaded result)

def Register.stage (register : Register ι κ) : Access ι κ → Stage (Access ι κ) Answer
  | .save save => saveStage save (register.answered save) (register.saves.phase save)
  | .load load => loadStage load (register.loads load)

/-- How a step of a save shows: it begins, or what it comes to is settled. -/
def saveLabel? (save : ι) (before after : Phase) :
    Option (Label (Access ι κ) (Access ι κ) Answer) :=
  match before with
  | .waiting => some (.invoke (.save save) (.save save))
  | _ =>
      match settled? before, settled? after with
      | none, some status => some (.point (.save save) (.save save) (.saved status))
      | _, _ => none

end Stages

def fileOf : Option Bytes → SnapshotFile
  | none => .missing
  | some bytes =>
      if sized : bytes.length < 2 ^ 63 then .regular ⟨bytes, sized⟩ else .unmappable bytes.length

section Steps

variable {ι κ : Type} [DecidableEq ι] [DecidableEq κ] (process : Process ι) (loader : κ → Loader)

/-- A step of one call, or the process stops. The loads may be another process's. -/
inductive Step (register : Register ι κ) :
    Option (Label (Access ι κ) (Access ι κ) Answer) → Register ι κ → Prop
  | perform {save : ι} {outcome : Outcome} {label : Option (Label (Access ι κ) (Access ι κ) Answer)}
      (running : register.saves.stopped = false)
      (shows : label = saveLabel? save (register.saves.phase save)
        ((process.step register.saves (.perform save outcome)).phase save)) :
      Step register label
        { register with saves := process.step register.saves (.perform save outcome) }
  | elsewhere :
      Step register none { register with saves := process.step register.saves .elsewhere }
  | stop : Step register none { register with saves := process.step register.saves .stop }
  | answer {save : ι} {status : Status} (running : register.saves.stopped = false)
      (ended : (register.saves.phase save).status? = some status)
      (first : register.answered save = false) :
      Step register (some (.respond (.save save) (.save save) (.saved status)))
        { register with answered := Function.update register.answered save true }
  | begin {load : κ} (waits : register.loads load = .waiting) :
      Step register (some (.invoke (.load load) (.load load)))
        { register with loads := Function.update register.loads load .opening }
  | read {load : κ} {result : Result Collection} (opens : register.loads load = .opening)
      (done : PersistenceManager.load process.target.string (loader load).allocator
        (fileOf (register.saves.files process.target.entry)) (loader load).tag = .ok result) :
      Step register (some (.point (.load load) (.load load) (.loaded result)))
        { register with loads := Function.update register.loads load (.opened result) }
  | finish {load : κ} {result : Result Collection} (opened : register.loads load = .opened result) :
      Step register (some (.respond (.load load) (.load load) (.loaded result)))
        { register with loads := Function.update register.loads load (.returned result) }

def start (files : Bytes × Bytes → Option Bytes) : Register ι κ :=
  ⟨Process.start files, fun _ => false, fun _ => .waiting⟩

end Steps

structure Recovered (entry : Entry) (allocator : MemoryAllocator) (collection : Collection) :
    Prop where
  config : collection.config = entry.config
  indexType : collection.indexType = entry.indexType
  shows : collection.Shows allocator entry.view
  indexed : collection.Indexed entry.view

/-- The register all at once. A save may fail, but not for what the register holds. -/
inductive Serves {ι κ : Type} (entries : ι → Entry) (loader : κ → Loader)
    (content : Option Entry) : Access ι κ → Answer → Option Entry → Prop
  | saved {save : ι} :
      Serves entries loader content (.save save) (.saved (.ok ())) (some (entries save))
  | failed {save : ι} {error : Error} (category : error.category = .writeFailure) :
      Serves entries loader content (.save save) (.saved (.error error)) content
  | missing {load : κ} {error : Error} (empty : content = none)
      (category : error.category = .snapshotNotFound) :
      Serves entries loader content (.load load) (.loaded (.error error)) content
  | loaded {load : κ} {entry : Entry} {collection : Collection} (held : content = some entry)
      (recovered : Recovered entry (loader load).allocator collection) :
      Serves entries loader content (.load load) (.loaded (.ok collection)) content

def Contains : Option Bytes → Option Entry → Prop
  | none, none => True
  | some bytes, some entry => ∃ sized, Image ⟨bytes, sized⟩ entry
  | _, _ => False

section Reads

variable {ι κ : Type} {loader : κ → Loader} {entries : ι → Entry}

end Reads

section Phases

variable {ι κ : Type} {process : Process ι} {before files : Bytes × Bytes → Option Bytes}
  {save : ι} {phase next : Phase} {call : Nat} {status : Status}

/-- What a step of a numbered call settles, and what it leaves of the target. -/
inductive Advances (process : Process ι) (files after : Bytes × Bytes → Option Bytes) (save : ι)
    (phase next : Phase) : Prop
  | kept (same : settled? next = settled? phase)
      (target : after process.target.entry = files process.target.entry)
  | failed {error : Error} (open_ : settled? phase = none)
      (settles : settled? next = some (.error error)) (category : error.category = .writeFailure)
      (target : after process.target.entry = files process.target.entry)
  | published (open_ : settled? phase = none) (settles : settled? next = some (.ok ()))
      (target : after process.target.entry = some (process.saves save).image)

end Phases

section Follows

variable {ι κ : Type} {process : Process ι} {loader : κ → Loader} {entries : ι → Entry}
  {before : Bytes × Bytes → Option Bytes} {register after : Register ι κ}
  {content : Option Entry} {label : Option (Label (Access ι κ) (Access ι κ) Answer)}

structure Related (process : Process ι) (before : Bytes × Bytes → Option Bytes)
    (register : Register ι κ) (content : Option Entry) : Prop where
  consistent : process.Consistent before register.saves
  answered : ∀ save, register.answered save = true → (register.saves.phase save).status? ≠ none
  holds : Contains (register.saves.files process.target.entry) content

variable [DecidableEq ι] [DecidableEq κ]

inductive Shows (process : Process ι) (loader : κ → Loader) (entries : ι → Entry)
    (before : Bytes × Bytes → Option Bytes) (register after : Register ι κ)
    (content : Option Entry) : Option (Label (Access ι κ) (Access ι κ) Answer) → Prop
  | silent (related : Related process before after content)
      (stages : after.stage = register.stage) :
      Shows process loader entries before register after content none
  | visible {label : Label (Access ι κ) (Access ι κ) Answer} {content' : Option Entry}
      (related : Related process before after content')
      (moves : label.Moves register.stage after.stage)
      (serves : ∀ call op ret, label = .point call op ret →
        Serves entries loader content op ret content')
      (quiet : (∀ call op ret, label ≠ .point call op ret) → content' = content) :
      Shows process loader entries before register after content (some label)

end Follows

end VectorVault.SnapshotRegister
