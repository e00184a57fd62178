import Mathlib.Logic.Function.Iterate
import Mathlib.Data.List.GetD
import Mathlib.Tactic

/-! Two choices made in turn, as k-means makes them.

From a position an answer is read off, and the position moves to the answer; a
move to the answer already moved to stays. The loop may stop at an answer that
it had before, and then further rounds would change nothing. -/

namespace VectorVault.Alternation

variable {A C : Type} [DecidableEq A] (answer : C → A) (move : C → A → C)

def round (position : C) : C := move position (answer position)

/-- The rounds of the loop; the first of them does not look at the answer before it. -/
def refine : Nat → Bool → A → C → A × C
  | 0, _, before, position => (before, position)
  | rounds + 1, first, before, position =>
      let now := answer position
      let moved := move position now
      if now = before ∧ first = false then (now, moved) else refine rounds false now moved

variable (again : ∀ position now, move (move position now) now = move position now)

include again in
theorem refine_eq (rounds : Nat) (first : Bool) (before : A) (position : C)
    (held : first = false → move position before = position) :
    refine answer move (rounds + 1) first before position =
      (answer ((round answer move)^[rounds] position),
        (round answer move)^[rounds + 1] position) := by
  induction rounds generalizing first before position with
  | zero =>
      simp only [refine, ite_self]
      rfl
  | succ rounds ih =>
      have moves : move position (answer position) = round answer move position := rfl
      unfold refine
      simp only [moves]
      split
      · next stops =>
          have still : round answer move position = position := by
            rw [round, stops.1]
            exact held stops.2
          rw [Function.iterate_fixed still, Function.iterate_fixed still, still]
      · exact ih false (answer position) (round answer move position)
          (fun _ => again position (answer position))

section Least

variable {D : Type} [LinearOrder D] [OrderTop D]

def FirstLeast (values : List D) (place : Nat) : Prop :=
  place < values.length ∧ ∀ other < values.length,
    values.getD place ⊤ ≤ values.getD other ⊤ ∧
      (other < place → values.getD place ⊤ < values.getD other ⊤)

instance (values : List D) (place : Nat) : Decidable (FirstLeast values place) :=
  inferInstanceAs (Decidable (_ ∧ _))

theorem FirstLeast.unique {values : List D} {first second : Nat} (least : FirstLeast values first)
    (least' : FirstLeast values second) : first = second := by
  rcases Nat.lt_trichotomy first second with sooner | same | later
  · exact absurd ((least'.2 first least.1).2 sooner) (least.2 second least'.1).1.not_gt
  · exact same
  · exact absurd ((least.2 second least'.1).2 later) (least'.2 first least.1).1.not_gt

theorem firstLeast_single (value : D) : FirstLeast [value] 0 := by
  refine ⟨Nat.zero_lt_one, ?_⟩
  intro other inside
  have same : other = 0 := Nat.lt_one_iff.mp inside
  rw [same]
  exact ⟨le_rfl, fun less => absurd less (Nat.lt_irrefl 0)⟩

theorem FirstLeast.push {values : List D} {place : Nat} (least : FirstLeast values place)
    (value : D) :
    FirstLeast (values ++ [value])
      (if value < values.getD place ⊤ then values.length else place) := by
  have old : ∀ other < values.length, (values ++ [value]).getD other ⊤ = values.getD other ⊤ :=
    fun other inside => List.getD_append _ _ _ _ inside
  have new : (values ++ [value]).getD values.length ⊤ = value := by simp
  have cases_ : ∀ other < (values ++ [value]).length, other < values.length ∨
      other = values.length := by
    intro other inside
    rw [List.length_append, List.length_singleton] at inside
    omega
  split
  · next less =>
      refine ⟨by simp, ?_⟩
      intro other inside
      rw [new]
      rcases cases_ other inside with before | same
      · have beats := less.trans_le (least.2 other before).1
        rw [old other before]
        exact ⟨beats.le, fun _ => beats⟩
      · rw [same, new]
        exact ⟨le_rfl, fun less => absurd less (Nat.lt_irrefl _)⟩
  · next more =>
      refine ⟨by rw [List.length_append]; exact Nat.lt_add_right _ least.1, ?_⟩
      intro other inside
      rw [old place least.1]
      rcases cases_ other inside with before | same
      · rw [old other before]
        exact least.2 other before
      · rw [same, new]
        exact ⟨not_lt.mp more, fun less => absurd less (Nat.lt_asymm least.1)⟩

theorem findIdx_middle {A : Type} {first rest : List A} {item : A} {holds : A → Bool}
    (here : holds item = true) (before : ∀ other ∈ first, holds other = false) :
    (first ++ item :: rest).findIdx holds = first.length := by
  have none : ¬ first.findIdx holds < first.length := by
    intro inside
    rcases List.findIdx_lt_length.mp inside with ⟨other, member, there⟩
    rw [before other member] at there
    exact Bool.false_ne_true there
  rw [List.findIdx_append, if_neg none, List.findIdx_cons, here, cond_true, Nat.zero_add]

theorem firstLeast_findIdx {A : Type} {items : List A} {value : A → D} {least : D}
    {holds : A → Bool} (some_ : ∃ item ∈ items, holds item = true)
    (same : ∀ item ∈ items, holds item = true → value item = least)
    (more : ∀ item ∈ items, ¬ holds item = true → least < value item) :
    FirstLeast (items.map value) (items.findIdx holds) := by
  have inside : items.findIdx holds < items.length := List.findIdx_lt_length.mpr some_
  have values : ∀ place (below : place < items.length),
      (items.map value).getD place ⊤ = value items[place] := by
    intro place below
    rw [List.getD_eq_getElem _ _ (by rw [List.length_map]; exact below), List.getElem_map]
  have here := same _ (List.getElem_mem inside) List.findIdx_getElem
  refine ⟨by rw [List.length_map]; exact inside, ?_⟩
  intro other below
  rw [List.length_map] at below
  rw [values _ inside, values _ below, here]
  constructor
  · by_cases also : holds items[other] = true
    · exact (same _ (List.getElem_mem below) also).ge
    · exact (more _ (List.getElem_mem below) also).le
  · intro sooner
    apply more _ (List.getElem_mem below)
    have not_ := List.not_of_lt_findIdx sooner
    rw [not_]
    exact Bool.false_ne_true

end Least

end VectorVault.Alternation
