import Mathlib.Logic.Function.Basic
import Mathlib.Tactic

/-! Threads that take locks in a fixed order do not deadlock.

A lock is held exclusively by one thread or shared by several. How a lock chooses
among the threads that wait for it is left open, as long as it admits one of them
once nobody holds it. Each thread takes a lock only while all it holds rank
below. -/

namespace VectorVault.LockOrder

inductive Mode where
  | shared
  | exclusive
  deriving DecidableEq

inductive Action (L : Type) where
  | acquire (lock : L) (mode : Mode)
  | release (lock : L)
  | work

structure Thread (L : Type) where
  held : List (L × Mode)
  program : List (Action L)

variable {L T : Type} [DecidableEq L]

/-- A program from where certain locks are held: it takes them in the order of the
ranks, gives back what it has taken, and ends with none. -/
def Ordered (rank : L → Nat) : List (L × Mode) → List (Action L) → Prop
  | held, [] => held = []
  | held, .acquire lock mode :: rest =>
      (∀ other ∈ held, rank other.1 < rank lock) ∧ Ordered rank ((lock, mode) :: held) rest
  | held, .release lock :: rest =>
      Ordered rank (held.filter (fun other => decide (other.1 ≠ lock))) rest
  | held, .work :: rest => Ordered rank held rest

def Waits (state : T → Thread L) (thread : T) (lock : L) (mode : Mode) : Prop :=
  ∃ rest, (state thread).program = .acquire lock mode :: rest

/-- No other thread holds the lock in a way that rules the mode out. -/
def Compatible (state : T → Thread L) (thread : T) (lock : L) (mode : Mode) : Prop :=
  ∀ other, other ≠ thread → ∀ held ∈ (state other).held, held.1 = lock →
    held.2 = .shared ∧ mode = .shared

def Unheld (state : T → Thread L) (lock : L) : Prop :=
  ∀ thread, ∀ held ∈ (state thread).held, held.1 ≠ lock

/-- Who may have a lock that nobody stands in the way of. -/
abbrev Policy (T L : Type) := (T → Thread L) → T → L → Mode → Prop

/-- A lock nobody holds is given to some thread that waits for it. -/
def Policy.Fair (policy : Policy T L) : Prop :=
  ∀ state lock thread mode, Waits state thread lock mode → Unheld state lock →
    ∃ next mode', Waits state next lock mode' ∧ policy state next lock mode'

section Step

variable [DecidableEq T]

inductive Step (policy : Policy T L) (state : T → Thread L) : (T → Thread L) → Prop
  | acquire {thread : T} {lock : L} {mode : Mode} {rest : List (Action L)}
      (next : (state thread).program = .acquire lock mode :: rest)
      (compatible : Compatible state thread lock mode) (admitted : policy state thread lock mode) :
      Step policy state
        (Function.update state thread ⟨(lock, mode) :: (state thread).held, rest⟩)
  | release {thread : T} {lock : L} {rest : List (Action L)}
      (next : (state thread).program = .release lock :: rest) :
      Step policy state (Function.update state thread
        ⟨(state thread).held.filter (fun other => decide (other.1 ≠ lock)), rest⟩)
  | work {thread : T} {rest : List (Action L)}
      (next : (state thread).program = .work :: rest) :
      Step policy state (Function.update state thread ⟨(state thread).held, rest⟩)

inductive Reaches (policy : Policy T L) (start : T → Thread L) : (T → Thread L) → Prop
  | refl : Reaches policy start start
  | step {middle final : T → Thread L} (earlier : Reaches policy start middle)
      (moved : Step policy middle final) : Reaches policy start final

variable {policy : Policy T L} {rank : L → Nat} {start state after : T → Thread L}

def InOrder (rank : L → Nat) (state : T → Thread L) : Prop :=
  ∀ thread, Ordered rank (state thread).held (state thread).program

omit [DecidableEq L] in
theorem update_forall (holds : Thread L → Prop) (every : ∀ thread, holds (state thread))
    {thread : T} {next : Thread L} (here : holds next) :
    ∀ other, holds (Function.update state thread next other) := by
  intro other
  by_cases same : other = thread
  · rw [same, Function.update_self]
    exact here
  · rw [Function.update_of_ne same]
    exact every other

theorem step_inOrder (inOrder : InOrder rank state) (step : Step policy state after) :
    InOrder rank after := by
  cases step with
  | @acquire thread lock mode rest next _ _ =>
      have ordered := inOrder thread
      rw [next] at ordered
      exact update_forall (fun thread => Ordered rank thread.held thread.program) inOrder
        ordered.2
  | @release thread lock rest next =>
      have ordered := inOrder thread
      rw [next] at ordered
      exact update_forall (fun thread => Ordered rank thread.held thread.program) inOrder
        ordered
  | @work thread rest next =>
      have ordered := inOrder thread
      rw [next] at ordered
      exact update_forall (fun thread => Ordered rank thread.held thread.program) inOrder
        ordered

theorem reaches_inOrder (inOrder : InOrder rank start) (reaches : Reaches policy start state) :
    InOrder rank state := by
  induction reaches with
  | refl => exact inOrder
  | step _ moved ih => exact step_inOrder ih moved

/-- Induction from the highest rank down: whoever holds the lock a thread waits for
can go on, or waits for a lock that ranks above. -/
theorem waiting_steps (fair : policy.Fair) (inOrder : InOrder rank state) {bound : Nat}
    (bounded : ∀ lock, rank lock < bound) {thread : T} {lock : L} {mode : Mode}
    (waits : Waits state thread lock mode) : ∃ after, Step policy state after := by
  induction above : bound - rank lock using Nat.strong_induction_on generalizing thread lock mode with
  | _ above ih =>
      by_cases unheld : Unheld state lock
      · rcases fair state lock thread mode waits unheld with ⟨next, mode', ⟨rest, isNext⟩, admitted⟩
        have compatible : Compatible state next lock mode' :=
          fun other _ held member isLock => absurd isLock (unheld other held member)
        exact ⟨_, .acquire isNext compatible admitted⟩
      · simp only [Unheld, not_forall, not_not] at unheld
        rcases unheld with ⟨holder, held, member, isLock⟩
        have ordered := inOrder holder
        cases program : (state holder).program with
        | nil =>
            rw [program] at ordered
            have none : (state holder).held = [] := ordered
            rw [none] at member
            cases member
        | cons action rest =>
            cases action with
            | work => exact ⟨_, .work program⟩
            | release other => exact ⟨_, .release program⟩
            | acquire other mode' =>
                rw [program] at ordered
                have higher := ordered.1 held member
                rw [isLock] at higher
                have below := bounded other
                exact ih (bound - rank other) (by omega) ⟨rest, program⟩ rfl

theorem deadlock_free (fair : policy.Fair) {bound : Nat} (bounded : ∀ lock, rank lock < bound)
    (inOrder : InOrder rank start) (reaches : Reaches policy start state) {thread : T}
    (unfinished : (state thread).program ≠ []) : ∃ after, Step policy state after := by
  cases program : (state thread).program with
  | nil => exact absurd program unfinished
  | cons action rest =>
      cases action with
      | work => exact ⟨_, .work program⟩
      | release lock => exact ⟨_, .release program⟩
      | acquire lock mode =>
          exact waiting_steps fair (reaches_inOrder inOrder reaches) bounded ⟨rest, program⟩

end Step

section Programs

/-- A piece of a program that gives back all it takes. -/
def Balanced (rank : L → Nat) (held : List (L × Mode)) (body : List (Action L)) : Prop :=
  ∀ rest, Ordered rank held rest → Ordered rank held (body ++ rest)

variable {rank : L → Nat} {held : List (L × Mode)} {body first second : List (Action L)}

theorem balanced_nil : Balanced rank held [] := fun _ ordered => ordered

theorem balanced_work : Balanced rank held [.work] := fun _ ordered => ordered

theorem Balanced.append (earlier : Balanced rank held first) (later : Balanced rank held second) :
    Balanced rank held (first ++ second) := by
  intro rest ordered
  rw [List.append_assoc]
  exact earlier _ (later rest ordered)

theorem balanced_flatMap {A : Type} (items : List A) {piece : A → List (Action L)}
    (each : ∀ item, Balanced rank held (piece item)) :
    Balanced rank held (items.flatMap piece) := by
  induction items with
  | nil => exact balanced_nil
  | cons item rest ih =>
      rw [List.flatMap_cons]
      exact (each item).append ih

def critical (lock : L) (mode : Mode) (body : List (Action L)) : List (Action L) :=
  .acquire lock mode :: body ++ [.release lock]

theorem Balanced.critical {lock : L} {mode : Mode}
    (inner : Balanced rank ((lock, mode) :: held) body)
    (above : ∀ other ∈ held, rank other.1 < rank lock) :
    Balanced rank held (critical lock mode body) := by
  have kept : ((lock, mode) :: held).filter (fun other => decide (other.1 ≠ lock)) = held := by
    rw [List.filter_cons_of_neg (by simp)]
    apply List.filter_eq_self.mpr
    intro other member
    have below := above other member
    simp only [decide_eq_true_eq]
    intro same
    rw [same] at below
    exact Nat.lt_irrefl _ below
  intro rest ordered
  have whole : LockOrder.critical lock mode body ++ rest =
      .acquire lock mode :: (body ++ (.release lock :: rest)) := by
    rw [LockOrder.critical, List.append_assoc]
    rfl
  rw [whole]
  refine ⟨above, inner _ ?_⟩
  rw [Ordered, kept]
  exact ordered

end Programs

end VectorVault.LockOrder
