import VectorVault.Library.BestFirstOrder

/-! Two explorations of one graph, one with a larger breadth.

While the narrower one goes on, both expand the same nodes. After that only the
wider one goes on, so it has seen whatever the narrower one has. -/

namespace VectorVault.BestFirst

open FloatOrder

section Breadth

variable {D V : Type} [LinearOrder D] [OrderTop D] [LinearOrder V] {dist : V → D}
  {neighbors : V → List V} {narrow wide : Nat} {property : V → Prop}
  {frontier wider : Frontier D V}

structure Level (dist : V → D) (narrow wide : Nat) (property : V → Prop)
    (frontier wider : Frontier D V) : Prop where
  proper : Proper dist narrow property frontier
  proper' : Proper dist wide property wider
  visited : ∀ node, node ∈ wider.visited ↔ node ∈ frontier.visited

theorem Level.kept (level : Level dist narrow wide property frontier wider) (more : narrow ≤ wide)
    {node : V} (member : node ∈ frontier.result.map Prod.snd) :
    node ∈ wider.result.map Prod.snd := by
  have same : wider.visited.Perm frontier.visited :=
    (List.perm_ext_iff_of_nodup level.proper'.structural.visitedNodup
      level.proper.structural.visitedNodup).mpr level.visited
  have few := (mem_result_iff level.proper.structural level.proper.ordered node).mp member
  apply (mem_result_iff level.proper'.structural level.proper'.ordered node).mpr
  rw [level.visited node, same.countP_eq]
  exact ⟨few.1, lt_of_lt_of_le few.2 more⟩

/-- Two explorations that also have the same open nodes, as far as the narrower
result goes. -/
structure Abreast (dist : V → D) (narrow wide : Nat) (property : V → Prop)
    (frontier wider : Frontier D V) : Prop where
  level : Level dist narrow wide property frontier wider
  opened : ∀ node ∈ frontier.result.map Prod.snd,
    (node ∈ wider.candidates.map Prod.snd ↔ node ∈ frontier.candidates.map Prod.snd)

theorem Abreast.expand (agree : Abreast dist narrow wide property frontier wider)
    (more : narrow ≤ wide) (apart : Apart dist property)
    (closed : ∀ node, property node → ∀ next ∈ neighbors node, property next)
    {nearest nearest' : D × V} {rest rest' : List (D × V)}
    (candidates : frontier.candidates = nearest :: rest)
    (candidates' : wider.candidates = nearest' :: rest') (same : nearest'.2 = nearest.2) :
    Abreast dist narrow wide property
      ((neighbors nearest.2).foldl (visit dist narrow) { frontier with candidates := rest })
      ((neighbors nearest'.2).foldl (visit dist wide) { wider with candidates := rest' }) := by
  have proper := agree.level.proper
  have proper' := agree.level.proper'
  have grown := foldl_visit_extends dist narrow (neighbors nearest.2)
    (Extends.refl { frontier with candidates := rest })
  have grown' := foldl_visit_extends dist wide (neighbors nearest'.2)
    (Extends.refl { wider with candidates := rest' })
  have next : Level dist narrow wide property
      ((neighbors nearest.2).foldl (visit dist narrow) { frontier with candidates := rest })
      ((neighbors nearest'.2).foldl (visit dist wide) { wider with candidates := rest' }) := by
    refine ⟨proper.expand apart closed candidates, proper'.expand apart closed candidates', ?_⟩
    intro node
    rw [mem_foldl_visited, mem_foldl_visited, same, agree.level.visited node]
  refine ⟨next, ?_⟩
  intro node member
  by_cases before : node ∈ frontier.visited
  · have before' : node ∈ wider.visited := (agree.level.visited node).mpr before
    have held : node ∈ frontier.result.map Prod.snd :=
      (grown.result node member).resolve_right (fun new => new.1 before)
    rw [grown.stays before, grown'.stays before', mem_rest_iff proper.structural candidates,
      mem_rest_iff proper'.structural candidates', agree.opened node held, same]
  · -- A node just visited and kept is a candidate of both.
    have before' : node ∉ wider.visited := fun seen => before ((agree.level.visited node).mp seen)
    have open_ := (grown.result node member).resolve_left
      (fun old => before (proper.structural.result_visited old))
    have open' := (grown'.result node (next.kept more member)).resolve_left
      (fun old => before' (proper'.structural.result_visited old))
    exact iff_of_true open'.2 open_.2

theorem Abreast.nearest_eq (agree : Abreast dist narrow wide property frontier wider)
    (apart : Apart dist property) {nearest nearest' : D × V} {rest rest' : List (D × V)}
    (candidates : frontier.candidates = nearest :: rest)
    (candidates' : wider.candidates = nearest' :: rest')
    (kept : nearest.2 ∈ frontier.result.map Prod.snd) : nearest'.2 = nearest.2 := by
  have proper := agree.level.proper
  have proper' := agree.level.proper'
  have known := proper.structural.head_reached candidates
  have known' := proper'.structural.head_reached candidates'
  have first : nearest.2 ∈ frontier.candidates.map Prod.snd := by
    rw [candidates]
    exact List.mem_cons_self
  have first' : nearest'.2 ∈ wider.candidates.map Prod.snd := by
    rw [candidates']
    exact List.mem_cons_self
  have atMost := proper'.nearest_le candidates' ((agree.opened nearest.2 kept).mpr first)
  -- It is as near as a node of the narrower result, so it is in that result too.
  have few := (mem_result_iff proper.structural proper.ordered nearest.2).mp kept
  have seen : nearest'.2 ∈ frontier.visited := by
    rcases List.mem_map.mp first' with ⟨item, waiting, isFirst⟩
    rw [← isFirst, ← agree.level.visited]
    exact (proper'.structural.candidateItems item waiting).2
  have fewer : frontier.visited.countP (fun other => dist other < dist nearest'.2) ≤
      frontier.visited.countP (fun other => dist other < dist nearest.2) := by
    apply List.countP_mono_left
    intro other _ less
    rw [decide_eq_true_eq] at less ⊢
    exact lt_of_lt_of_le less atMost
  have kept' : nearest'.2 ∈ frontier.result.map Prod.snd :=
    (mem_result_iff proper.structural proper.ordered nearest'.2).mpr
      ⟨seen, lt_of_le_of_lt fewer few.2⟩
  have atLeast := proper.nearest_le candidates ((agree.opened nearest'.2 kept').mp first')
  exact apart _ _ known' known (le_antisymm atMost atLeast)

theorem explore_visited (fuel : Nat) {final : Frontier D V}
    (found : explore dist neighbors wide fuel frontier = some final) :
    ∀ node ∈ frontier.visited, node ∈ final.visited := by
  induction fuel generalizing frontier with
  | zero => cases found
  | succ fuel ih =>
      intro node member
      unfold explore at found
      cases candidates : frontier.candidates with
      | nil =>
          simp only [candidates, Option.some.injEq] at found
          rw [← found]
          exact member
      | cons nearest rest =>
          simp only [candidates] at found
          cases stop : settled wide frontier.result nearest with
          | true =>
              simp only [stop, if_true, Option.some.injEq] at found
              rw [← found]
              exact member
          | false =>
              simp only [stop, Bool.false_eq_true, if_false] at found
              apply ih found
              rw [mem_foldl_visited]
              exact Or.inl member

theorem explore_abreast (more : narrow ≤ wide) (apart : Apart dist property)
    (closed : ∀ node, property node → ∀ next ∈ neighbors node, property next)
    (fuel fuel' : Nat) (frontier wider : Frontier D V)
    (agree : Abreast dist narrow wide property frontier wider) {final final' : Frontier D V}
    (found : explore dist neighbors narrow fuel frontier = some final)
    (found' : explore dist neighbors wide fuel' wider = some final') :
    ∀ node ∈ final.visited, node ∈ final'.visited := by
  induction fuel generalizing fuel' frontier wider with
  | zero => cases found
  | succ fuel ih =>
      cases fuel' with
      | zero => cases found'
      | succ fuel' =>
          have proper := agree.level.proper
          have proper' := agree.level.proper'
          rcases proper.explore_cases found with ⟨same, _⟩ | ⟨nearest, rest, candidates, kept, goes⟩
          · intro node member
            rw [same] at member
            exact explore_visited (fuel' + 1) found' node ((agree.level.visited node).mpr member)
          · have first : nearest.2 ∈ frontier.candidates.map Prod.snd := by
              rw [candidates]
              exact List.mem_cons_self
            rcases proper'.explore_cases found' with
              ⟨_, none⟩ | ⟨nearest', rest', candidates', _, goes'⟩
            · exact absurd (agree.level.kept more kept)
                (none nearest.2 ((agree.opened nearest.2 kept).mpr first))
            · have same := agree.nearest_eq apart candidates candidates' kept
              exact ih fuel' _ _ (agree.expand more apart closed candidates candidates' same)
                goes goes'

theorem explore_wider (more : narrow ≤ wide) (positive : 1 ≤ narrow) (apart : Apart dist property)
    (closed : ∀ node, property node → ∀ next ∈ neighbors node, property next)
    (fuel fuel' : Nat) {entry : V} (holds : property entry) {final final' : Frontier D V}
    (found : explore dist neighbors narrow fuel (start dist entry) = some final)
    (found' : explore dist neighbors wide fuel' (start dist entry) = some final') :
    ∀ node ∈ final.visited, node ∈ final'.visited := by
  have proper : Proper dist narrow property (start dist entry) :=
    ⟨start_structural dist narrow entry holds positive, start_ordered dist narrow entry⟩
  have proper' : Proper dist wide property (start dist entry) :=
    ⟨start_structural dist wide entry holds (positive.trans more), start_ordered dist wide entry⟩
  exact explore_abreast more apart closed fuel fuel' _ _
    ⟨⟨proper, proper', fun _ => Iff.rfl⟩, fun _ _ => Iff.rfl⟩ found found'

theorem explore_proper (apart : Apart dist property)
    (closed : ∀ node, property node → ∀ next ∈ neighbors node, property next) (fuel : Nat)
    (proper : Proper dist narrow property frontier) {final : Frontier D V}
    (found : explore dist neighbors narrow fuel frontier = some final) :
    Proper dist narrow property final := by
  induction fuel generalizing frontier with
  | zero => cases found
  | succ fuel ih =>
      rcases proper.explore_cases found with ⟨same, _⟩ | ⟨nearest, rest, candidates, _, goes⟩
      · rw [same]
        exact proper
      · exact ih (proper.expand apart closed candidates) goes

def dropped (frontier : Frontier D V) : List V :=
  unvisited frontier.visited (frontier.result.map Prod.snd)

omit [LinearOrder D] [OrderTop D] in
theorem Structural.visited_perm (structural : Structural dist narrow property frontier) :
    frontier.visited.Perm (frontier.result.map Prod.snd ++ dropped frontier) := by
  have partition := List.filter_append_perm
    (fun node => decide (node ∈ frontier.result.map Prod.snd)) frontier.visited
  have inside : (frontier.visited.filter
      (fun node => decide (node ∈ frontier.result.map Prod.snd))).Perm
      (frontier.result.map Prod.snd) := by
    apply (List.perm_ext_iff_of_nodup (structural.visitedNodup.filter _)
      structural.resultNodup).mpr
    intro node
    rw [List.mem_filter, decide_eq_true_eq]
    exact ⟨fun both => both.2, fun member => ⟨structural.result_visited member, member⟩⟩
  simp only [dropped, unvisited, decide_not]
  exact partition.symm.trans (inside.append_right _)

theorem Proper.dropped_farther (proper : Proper dist narrow property frontier) {node : V}
    (member : node ∈ dropped frontier) :
    narrow ≤ frontier.result.length ∧ ∀ item ∈ frontier.result, item.1 < dist node := by
  rcases List.mem_filter.mp member with ⟨seen, absent⟩
  exact (proper.ordered.best node seen).resolve_left (of_decide_eq_true absent)

end Breadth

end VectorVault.BestFirst
