import VectorVault.Library.Alternation

/-! Lloyd's algorithm, without a program that runs it.

The rounds go on for ever: each point is labelled with the first of its nearest
centres, then each centre moves to the mean of the points with its label. -/

namespace VectorVault.Lloyd

open Alternation

section Moves

variable {P : Type} (mean : List P → P)

def group (points : List P) (label : P → Nat) (cell : Nat) : List P :=
  points.filter (fun point => label point = cell)

/-- Each centre goes to the mean of its group; without a group it stays. -/
def moved (points : List P) (label : P → Nat) (centres : List P) : List P :=
  centres.mapIdx (fun cell centre =>
    if group points label cell = [] then centre else mean (group points label cell))

theorem length_moved (points : List P) (label : P → Nat) (centres : List P) :
    (moved mean points label centres).length = centres.length := List.length_mapIdx

theorem getElem_moved (points : List P) (label : P → Nat) {centres : List P} {cell : Nat}
    (inside : cell < (moved mean points label centres).length) (below : cell < centres.length) :
    (moved mean points label centres)[cell] =
      if group points label cell = [] then centres[cell] else mean (group points label cell) :=
  List.getElem_mapIdx

theorem mem_group {points : List P} {label : P → Nat} {cell : Nat} {point : P} :
    point ∈ group points label cell ↔ point ∈ points ∧ label point = cell := by
  rw [group, List.mem_filter, decide_eq_true_iff]

theorem moved_congr {points : List P} {label other : P → Nat}
    (same : ∀ point ∈ points, label point = other point) (centres : List P) :
    moved mean points label centres = moved mean points other centres := by
  have groups : ∀ cell, group points label cell = group points other cell := by
    intro cell
    apply List.filter_congr
    intro point member
    rw [same point member]
  simp only [moved, groups]

theorem moved_again (points : List P) (label : P → Nat) (centres : List P) :
    moved mean points label (moved mean points label centres) = moved mean points label centres := by
  unfold moved
  rw [List.mapIdx_mapIdx]
  congr 1
  funext cell centre
  simp only [Function.comp_apply]
  split <;> rfl

end Moves

section Courses

variable {P D : Type} [LinearOrder D] [OrderTop D] (distance : P → P → D) (mean : List P → P)

/-- The centres and the labels of every round, counted from zero. -/
structure Course (points start : List P) where
  centres : Nat → List P
  label : Nat → P → Nat
  starts : centres 0 = start
  nearest : ∀ round, ∀ point ∈ points,
    FirstLeast ((centres round).map (distance point)) (label round point)
  moves : ∀ round, centres (round + 1) = moved mean points (label round) (centres round)

namespace Course

variable {distance mean} {points start : List P}

/-- From this round on every point keeps its label. -/
def SettledBy (course : Course distance mean points start) (round : Nat) : Prop :=
  ∀ later, round ≤ later → ∀ point ∈ points, course.label later point = course.label round point

variable (course other : Course distance mean points start)

theorem label_eq {round round' : Nat}
    (same : course.centres round = other.centres round') :
    ∀ point ∈ points, course.label round point = other.label round' point := by
  intro point member
  have here := course.nearest round point member
  rw [same] at here
  exact here.unique (other.nearest round' point member)

theorem centres_unique (round : Nat) : course.centres round = other.centres round := by
  induction round with
  | zero => rw [course.starts, other.starts]
  | succ round ih =>
      rw [course.moves, other.moves, ih]
      exact moved_congr mean (label_eq course other ih) _

theorem label_unique (round : Nat) :
    ∀ point ∈ points, course.label round point = other.label round point :=
  label_eq course other (centres_unique course other round)

theorem length_centres (round : Nat) : (course.centres round).length = start.length := by
  induction round with
  | zero => rw [course.starts]
  | succ round ih => rw [course.moves, length_moved, ih]

theorem settledBy_iff (round : Nat) : course.SettledBy round ↔
    ∀ point ∈ points, course.label (round + 1) point = course.label round point := by
  constructor
  · intro settled
    exact settled (round + 1) (Nat.le_succ round)
  · intro repeated
    -- The groups of the two rounds are the same, so the centres stand.
    have stands : ∀ more, course.centres (round + more + 1) = course.centres (round + 1) := by
      intro more
      induction more with
      | zero => rfl
      | succ more ih =>
          have labels : ∀ point ∈ points,
              course.label (round + (more + 1)) point = course.label round point := by
            intro point member
            have same := label_eq course course ih point member
            exact same.trans (repeated point member)
          calc course.centres (round + (more + 1) + 1)
              = moved mean points (course.label (round + (more + 1))) (course.centres (round + 1)) := by
                rw [course.moves, ← ih]
                rfl
            _ = moved mean points (course.label round) (course.centres (round + 1)) :=
                moved_congr mean labels _
            _ = course.centres (round + 1) := by rw [course.moves round, moved_again]
    intro later after point member
    rcases Nat.exists_eq_add_of_le after with ⟨more, isLater⟩
    cases more with
    | zero => rw [isLater, Nat.add_zero]
    | succ more =>
        rw [isLater]
        exact (label_eq course course (stands more) point member).trans
          (repeated point member)

variable {course}

theorem SettledBy.later {round : Nat} (settled : course.SettledBy round) {more : Nat}
    (atMost : round ≤ more) : course.SettledBy more := by
  intro later after point member
  rw [settled later (atMost.trans after) point member, settled more atMost point member]

variable (course)

theorem stays {label : P → Nat}
    (before : ∀ point ∈ points, FirstLeast (start.map (distance point)) (label point))
    (after : ∀ point ∈ points,
      FirstLeast ((moved mean points label start).map (distance point)) (label point))
    (round : Nat) :
    course.centres (round + 1) = moved mean points label start ∧
      ∀ point ∈ points, course.label round point = label point := by
  have first : ∀ point ∈ points, course.label 0 point = label point := by
    intro point member
    have here := course.nearest 0 point member
    rw [course.starts] at here
    exact here.unique (before point member)
  induction round with
  | zero => exact ⟨by rw [course.moves, course.starts]; exact moved_congr mean first start, first⟩
  | succ round ih =>
      have labels : ∀ point ∈ points, course.label (round + 1) point = label point := by
        intro point member
        have here := course.nearest (round + 1) point member
        rw [ih.1] at here
        exact here.unique (after point member)
      refine ⟨?_, labels⟩
      rw [course.moves, ih.1, moved_congr mean labels, moved_again]

theorem settledBy_of_single (single : start.length = 1) : course.SettledBy 0 := by
  have zero : ∀ round, ∀ point ∈ points, course.label round point = 0 := by
    intro round point member
    have inside := (course.nearest round point member).1
    rw [List.length_map, course.length_centres, single] at inside
    omega
  intro later _ point member
  rw [zero later point member, zero 0 point member]

theorem settledBy_of_covered (covered : ∀ point ∈ points, point ∈ start)
    (apart : ∀ point ∈ points, ∀ centre ∈ start, centre ≠ point →
      distance point point < distance point centre)
    (copies : ∀ point ∈ points, ∀ count, mean (List.replicate (count + 1) point) = point) :
    course.SettledBy 0 := by
  have own : ∀ point ∈ points, start[course.label 0 point]? = some point := by
    intro point member
    have least := course.nearest 0 point member
    rw [course.starts] at least
    rcases List.getElem_of_mem (covered point member) with ⟨place, inside, isPoint⟩
    have here : course.label 0 point < start.length := by
      have below := least.1
      rwa [List.length_map] at below
    have atMost := (least.2 place (by rw [List.length_map]; exact inside)).1
    rw [List.getD_eq_getElem _ _ (by rw [List.length_map]; exact here),
      List.getD_eq_getElem _ _ (by rw [List.length_map]; exact inside), List.getElem_map,
      List.getElem_map, isPoint] at atMost
    rw [List.getElem?_eq_getElem here]
    by_contra other
    have differs : start[course.label 0 point] ≠ point := fun same => other (by rw [same])
    exact absurd atMost (apart point member _ (List.getElem_mem here) differs).not_ge
  have still : moved mean points (course.label 0) start = start := by
    apply List.ext_getElem (length_moved mean _ _ _)
    intro cell _ inside
    rw [getElem_moved mean _ _ _ inside]
    split
    · rfl
    · next some_ =>
        have same : ∀ point ∈ group points (course.label 0) cell, point = start[cell] := by
          intro point member
          rcases mem_group.mp member with ⟨isPoint, isCell⟩
          have found := own point isPoint
          rw [isCell, List.getElem?_eq_getElem inside] at found
          exact (Option.some.inj found).symm
        have all := List.eq_replicate_of_mem same
        rcases Nat.exists_eq_add_one.mpr (List.length_pos_iff.mpr some_) with ⟨count, isCount⟩
        have member : start[cell] ∈ points := by
          have inGroup : start[cell] ∈ group points (course.label 0) cell := by
            rw [all, isCount]
            exact List.mem_replicate.mpr ⟨Nat.succ_ne_zero count, rfl⟩
          exact (mem_group.mp inGroup).1
        rw [all, isCount]
        exact copies _ member count
  rw [settledBy_iff]
  have stands : course.centres (0 + 1) = course.centres 0 := by
    rw [course.moves, course.starts, still]
  exact label_eq course course stands

end Course

end Courses

end VectorVault.Lloyd
