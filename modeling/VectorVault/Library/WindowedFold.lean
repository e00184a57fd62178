import Mathlib.Data.List.Basic

/-! Folds that tell short windows apart.

A step over a register of finite width that moves what it keeps by one place
forgets a difference in its input only after as many steps as the register has
places. `agree n` says that two registers agree in their `n` newest places. -/

namespace VectorVault.WindowedFold

variable {S B : Type} {step : S → B → S} {agree : Nat → S → S → Prop} {width : Nat}

structure Moves (step : S → B → S) (agree : Nat → S → S → Prop) (width : Nat) : Prop where
  refl : ∀ n state, agree n state state
  fewer : ∀ {n first second}, agree (n + 1) first second → agree n first second
  back : ∀ {n first second one other}, n < width →
    agree (n + 1) (step first one) (step second other) → agree n first second
  input : ∀ {state one other}, agree 1 (step state one) (step state other) → one = other
  injective : ∀ {first second input}, step first input = step second input → first = second

theorem Moves.atMost (moves : Moves step agree width) {n m : Nat} {first second : S}
    (less : m ≤ n) (same : agree n first second) : agree m first second := by
  induction less with
  | refl => exact same
  | step _ ih => exact ih (moves.fewer same)

theorem Moves.fold_back (moves : Moves step agree width) (one other : List B) {n : Nat}
    {first second : S} (lengths : other.length = one.length) (within : n + one.length ≤ width)
    (same : agree (n + one.length) (one.foldl step first) (other.foldl step second)) :
    agree n first second := by
  induction one generalizing other n first second with
  | nil =>
      rw [List.length_eq_zero_iff.mp lengths] at same
      exact same
  | cons head tail ih =>
      cases other with
      | nil => cases lengths
      | cons head' tail' =>
          rw [List.length_cons] at within same
          have later := @ih tail' (n + 1) (step first head) (step second head')
            (Nat.succ.inj lengths) (by omega)
          rw [show n + 1 + tail.length = n + (tail.length + 1) by omega] at later
          exact moves.back (by omega) (later same)

theorem Moves.fold_window (moves : Moves step agree width) (one other : List B) {state : S}
    (lengths : other.length = one.length) (within : one.length ≤ width)
    (same : one.foldl step state = other.foldl step state) : one = other := by
  induction one generalizing other state with
  | nil => exact (List.length_eq_zero_iff.mp lengths).symm
  | cons head tail ih =>
      cases other with
      | nil => cases lengths
      | cons head' tail' =>
          rw [List.length_cons] at within
          have tails : tail'.length = tail.length := Nat.succ.inj lengths
          have final : agree (1 + tail.length) (tail.foldl step (step state head))
              (tail'.foldl step (step state head')) := by
            rw [List.foldl_cons, List.foldl_cons] at same
            rw [same]
            exact moves.refl _ _
          have first := moves.fold_back tail tail' tails (by omega) final
          have heads : head = head' := moves.input first
          rw [← heads] at same ⊢
          rw [ih tail' tails (by omega) same]

theorem Moves.fold_injective (moves : Moves step agree width) (inputs : List B) {first second : S}
    (same : inputs.foldl step first = inputs.foldl step second) : first = second := by
  induction inputs generalizing first second with
  | nil => exact same
  | cons head tail ih => exact moves.injective (ih same)

theorem Moves.fold_changed (moves : Moves step agree width) {front one other back : List B}
    {state : S} (lengths : other.length = one.length) (within : one.length ≤ width)
    (changed : one ≠ other) :
    (front ++ one ++ back).foldl step state ≠ (front ++ other ++ back).foldl step state := by
  intro same
  simp only [List.foldl_append] at same
  exact changed (moves.fold_window one other lengths within (moves.fold_injective back same))

end VectorVault.WindowedFold
