import VectorVault.Library.FloatOrder

/-! Greedy descent on a directed graph with a distance on its nodes.

One scan moves to every neighbour that is strictly closer than the best so far;
scans repeat until none improves. Each scan that improves strictly lowers the
distance, so the number of strictly closer nodes bounds the scans left. -/

namespace VectorVault.GreedyDescent

open FloatOrder

variable {D V : Type} [FloatOrder D]

/-- The current node, its distance and whether this scan moved. -/
structure Position (D V : Type) where
  current : V
  distance : D
  improved : Bool

def consider (dist : V → D) (position : Position D V) (neighbor : V) : Position D V :=
  if lt (dist neighbor) position.distance then ⟨neighbor, dist neighbor, true⟩ else position

def scan (dist : V → D) (neighbors : List V) (current : V) (distance : D) : Position D V :=
  neighbors.foldl (consider dist) ⟨current, distance, false⟩

/-- `none` when `fuel` scans were not enough. -/
def descend (dist : V → D) (neighbors : V → List V) : Nat → V → D → Option V
  | 0, _, _ => none
  | fuel + 1, current, distance =>
      let position := scan dist (neighbors current) current distance
      if position.improved then descend dist neighbors fuel position.current position.distance
      else some position.current

variable (dist : V → D) (neighbors : V → List V)

theorem foldl_consider (nodes : List V) (position : Position D V) :
    nodes.foldl (consider dist) position = position ∨
      ∃ node ∈ nodes, nodes.foldl (consider dist) position = ⟨node, dist node, true⟩ ∧
        lt (dist node) position.distance = true := by
  induction nodes generalizing position with
  | nil => exact Or.inl rfl
  | cons head tail ih =>
      rw [List.foldl_cons]
      by_cases closer : lt (dist head) position.distance = true
      · have moved : consider dist position head = ⟨head, dist head, true⟩ := if_pos closer
        rw [moved]
        rcases ih ⟨head, dist head, true⟩ with same | ⟨node, member, result, less⟩
        · exact Or.inr ⟨head, List.mem_cons_self, same, closer⟩
        · exact Or.inr ⟨node, List.mem_cons_of_mem _ member, result,
            lt_trans _ _ _ less closer⟩
      · have kept : consider dist position head = position := if_neg closer
        rw [kept]
        rcases ih position with same | ⟨node, member, result, less⟩
        · exact Or.inl same
        · exact Or.inr ⟨node, List.mem_cons_of_mem _ member, result, less⟩

theorem scan_cases (current : V) (distance : D) :
    scan dist (neighbors current) current distance = ⟨current, distance, false⟩ ∨
      ∃ node ∈ neighbors current,
        scan dist (neighbors current) current distance = ⟨node, dist node, true⟩ ∧
          lt (dist node) distance = true :=
  foldl_consider dist (neighbors current) ⟨current, distance, false⟩

/-- The nodes strictly closer than `distance`, among those the descent can reach. -/
def closer (nodes : List V) (distance : D) : List V :=
  nodes.filter (fun node => lt (dist node) distance)

theorem closer_lt (nodes : List V) {node : V} {distance : D} (member : node ∈ nodes)
    (less : lt (dist node) distance = true) :
    (closer dist nodes (dist node)).length < (closer dist nodes distance).length := by
  have sub : (closer dist nodes (dist node)).Sublist (closer dist nodes distance) := by
    have refilter : closer dist nodes (dist node) =
        (closer dist nodes distance).filter (fun other => lt (dist other) (dist node)) := by
      unfold closer
      rw [List.filter_filter]
      apply List.filter_congr
      intro other _
      cases near : lt (dist other) (dist node) with
      | false => rfl
      | true => simp [lt_trans _ _ _ near less]
    rw [refilter]
    exact List.filter_sublist
  have inside : node ∈ closer dist nodes distance := List.mem_filter.mpr ⟨member, less⟩
  have outside : node ∉ closer dist nodes (dist node) := by
    intro mem
    have self := (List.mem_filter.mp mem).2
    rw [FloatOrder.lt_irrefl] at self
    cases self
  refine lt_of_le_of_ne sub.length_le ?_
  intro same
  exact outside (sub.eq_of_length same ▸ inside)

theorem descend_closed (property : V → Prop) (nodes : List V)
    (closed : ∀ node, property node → ∀ next ∈ neighbors node, property next)
    (listed : ∀ node, property node → node ∈ nodes) (fuel : Nat) (current : V) (distance : D)
    (start : property current) (enough : (closer dist nodes distance).length < fuel) :
    ∃ final, descend dist neighbors fuel current distance = some final ∧ property final := by
  induction fuel generalizing current distance with
  | zero => omega
  | succ fuel ih =>
      unfold descend
      rcases scan_cases dist neighbors current distance with same | ⟨node, member, result, less⟩
      · exact ⟨current, by simp [same], start⟩
      · have next := closed current start node member
        have fewer := closer_lt dist nodes (listed node next) less
        obtain ⟨final, found, holds⟩ := ih node (dist node) next (by omega)
        exact ⟨final, by simpa [result] using found, holds⟩

section Linear

variable {D V : Type} [LinearOrder D] [OrderTop D] (dist : V → D)

theorem foldl_consider_least (nodes : List V) (position : Position D V)
    (exact_ : position.distance = dist position.current) :
    (nodes.foldl (consider dist) position).distance =
        dist (nodes.foldl (consider dist) position).current ∧
      (nodes.foldl (consider dist) position).distance ≤ position.distance ∧
      ∀ node ∈ nodes, (nodes.foldl (consider dist) position).distance ≤ dist node := by
  induction nodes generalizing position with
  | nil => exact ⟨exact_, le_refl _, by simp⟩
  | cons head tail ih =>
      rw [List.foldl_cons]
      by_cases near : dist head < position.distance
      · have moved : consider dist position head = ⟨head, dist head, true⟩ :=
          if_pos ((lt_iff _ _).mpr near)
        rw [moved]
        obtain ⟨own, atMost, least⟩ := ih ⟨head, dist head, true⟩ rfl
        refine ⟨own, atMost.trans near.le, ?_⟩
        intro node member
        rcases List.mem_cons.mp member with rfl | member
        · exact atMost
        · exact least node member
      · have kept : consider dist position head = position :=
          if_neg (fun holds => near ((lt_iff _ _).mp holds))
        rw [kept]
        obtain ⟨own, atMost, least⟩ := ih position exact_
        refine ⟨own, atMost, ?_⟩
        intro node member
        rcases List.mem_cons.mp member with rfl | member
        · exact atMost.trans (not_lt.mp near)
        · exact least node member

theorem descend_least (neighbors : V → List V) (fuel : Nat) (current final : V)
    (found : descend dist neighbors fuel current (dist current) = some final) :
    dist final ≤ dist current ∧ ∀ next ∈ neighbors final, dist final ≤ dist next := by
  induction fuel generalizing current with
  | zero => cases found
  | succ fuel ih =>
      have least := foldl_consider_least dist (neighbors current) ⟨current, dist current, false⟩ rfl
      unfold descend at found
      rcases scan_cases dist neighbors current (dist current) with stay | ⟨node, _, moved, closer⟩
      · have same : current = final := by simpa [stay] using found
        rw [scan] at stay
        rw [stay] at least
        rw [← same]
        exact ⟨le_rfl, least.2.2⟩
      · have further : descend dist neighbors fuel node (dist node) = some final := by
          simpa [moved] using found
        rcases ih node further with ⟨atMost, settled⟩
        exact ⟨atMost.trans ((lt_iff _ _).mp closer).le, settled⟩

/-- A renaming of nodes that keeps distances and neighbour sets renames the
outcome, when no two reachable nodes are equally far. -/
theorem descend_rename {W : Type} (dist' : W → D) (neighbors : V → List V)
    (neighbors' : W → List W) (rename : V → W) (property : V → Prop)
    (closed : ∀ node, property node → ∀ next ∈ neighbors node, property next)
    (same : ∀ node, property node → dist' (rename node) = dist node)
    (edges : ∀ node, property node →
      ∀ next, next ∈ neighbors' (rename node) ↔ ∃ old ∈ neighbors node, rename old = next)
    (distinct : ∀ first second, property first → property second → dist first = dist second →
      first = second)
    (fuel fuel' : Nat) (current final : V) (final' : W) (start : property current)
    (found : descend dist neighbors fuel current (dist current) = some final)
    (found' : descend dist' neighbors' fuel' (rename current) (dist current) = some final') :
    final' = rename final := by
  induction fuel generalizing fuel' current with
  | zero => cases found
  | succ fuel ih =>
      cases fuel' with
      | zero => cases found'
      | succ fuel' =>
          unfold descend at found found'
          have least := foldl_consider_least dist (neighbors current)
            ⟨current, dist current, false⟩ rfl
          have least' := foldl_consider_least dist' (neighbors' (rename current))
            ⟨rename current, dist current, false⟩ (same current start).symm
          have cases_ := scan_cases dist neighbors current (dist current)
          have cases' := scan_cases dist' neighbors' (rename current) (dist current)
          simp only [scan] at found found' cases_ cases'
          rcases cases_ with stay | ⟨node, member, result, less⟩
          · rcases cases' with stay' | ⟨node', member', result', less'⟩
            · simp only [stay, stay', Bool.false_eq_true, if_false, Option.some.injEq] at found found'
              rw [← found, ← found']
            · obtain ⟨old, memberOld, rfl⟩ := (edges current start node').mp member'
              have next := closed current start old memberOld
              rw [same old next, lt_iff] at less'
              rw [stay] at least
              exact absurd less' (least.2.2 old memberOld).not_gt
          · have next := closed current start node member
            have target : rename node ∈ neighbors' (rename current) :=
              (edges current start _).mpr ⟨node, member, rfl⟩
            rw [result] at least
            rcases cases' with stay' | ⟨node', member', result', less'⟩
            · rw [stay'] at least'
              have atMost := least'.2.2 _ target
              rw [same node next] at atMost
              exact absurd ((lt_iff _ _).mp less) atMost.not_gt
            · obtain ⟨old, memberOld, rfl⟩ := (edges current start node').mp member'
              have nextOld := closed current start old memberOld
              rw [result', same old nextOld] at least'
              have low := least.2.2 old memberOld
              have high := least'.2.2 _ target
              rw [same node next] at high
              have agree := distinct old node nextOld next (le_antisymm high low)
              subst agree
              simp only [result, if_true] at found
              simp only [result', same old next, if_true] at found'
              exact ih fuel' old next found found'

end Linear

end VectorVault.GreedyDescent
