import VectorVault.Library.BestFirstRanked

/-! Best-first exploration with totally ordered, pairwise different distances.

The result is at all times the nearest part of what was visited, so it does not
depend on the order in which neighbours are listed, nor on how nodes are named.
A candidate that is not in the result only ever ends the loop. -/

namespace VectorVault.BestFirst

open FloatOrder

section Ordered

variable {D V : Type} [LinearOrder D] [OrderTop D] [LinearOrder V] {dist : V → D} {breadth : Nat}
  {property : V → Prop} {frontier : Frontier D V}

structure Ordered (dist : V → D) (breadth : Nat) (frontier : Frontier D V) : Prop where
  near : frontier.candidates.Pairwise (fun first second => pairLt second first = false)
  far : frontier.result.Pairwise (fun first second => pairLt first second = false)
  best : ∀ node ∈ frontier.visited, node ∈ frontier.result.map Prod.snd ∨
    breadth ≤ frontier.result.length ∧ ∀ item ∈ frontier.result, item.1 < dist node

theorem start_ordered (dist : V → D) (breadth : Nat) (entry : V) :
    Ordered dist breadth (start dist entry) := by
  constructor
  · exact List.pairwise_singleton _ _
  · exact List.pairwise_singleton _ _
  · intro node member
    exact Or.inl member

def Apart (dist : V → D) (property : V → Prop) : Prop :=
  ∀ first second, property first → property second → dist first = dist second → first = second

theorem Ordered.ranked (ordered : Ordered dist breadth frontier) : Ranked dist breadth frontier := by
  refine ⟨ordered.near, ordered.far, fun node member => ?_⟩
  rcases ordered.best node member with kept | ⟨full, nearer⟩
  · exact Or.inl kept
  · exact Or.inr ⟨full, fun item inside => (nearer item inside).le⟩

theorem Ranked.ordered (apart : Apart dist property)
    (structural : Structural dist breadth property frontier) (ranked : Ranked dist breadth frontier) :
    Ordered dist breadth frontier := by
  refine ⟨ranked.near, ranked.far, fun node member => ?_⟩
  by_cases kept : node ∈ frontier.result.map Prod.snd
  · exact Or.inl kept
  · right
    obtain ⟨full, nearer⟩ := (ranked.best node member).resolve_left kept
    refine ⟨full, fun item inside => lt_of_le_of_ne (nearer item inside) ?_⟩
    intro tie
    have own := structural.resultItems item inside
    rw [own.1] at tie
    have equal := apart _ _ (structural.reached _ own.2) (structural.reached _ member) tie
    exact kept (List.mem_map.mpr ⟨item, inside, equal⟩)

theorem visit_ordered (apart : Apart dist property)
    (structural : Structural dist breadth property frontier) (ordered : Ordered dist breadth frontier)
    {node : V} (holds : property node) : Ordered dist breadth (visit dist breadth frontier node) :=
  (visit_ranked structural ordered.ranked node).ordered apart
    (visit_structural structural node holds)

theorem foldl_visit_ordered (apart : Apart dist property) (nodes : List V)
    (structural : Structural dist breadth property frontier) (ordered : Ordered dist breadth frontier)
    (holds : ∀ node ∈ nodes, property node) :
    Ordered dist breadth (nodes.foldl (visit dist breadth) frontier) := by
  induction nodes generalizing frontier with
  | nil => exact ordered
  | cons head tail ih =>
      have here := holds head List.mem_cons_self
      exact ih (visit_structural structural head here) (visit_ordered apart structural ordered here)
        (fun node member => holds node (List.mem_cons_of_mem _ member))

theorem pop_ordered {nearest : D × V} {rest : List (D × V)} (ordered : Ordered dist breadth frontier)
    (candidates : frontier.candidates = nearest :: rest) :
    Ordered dist breadth { frontier with candidates := rest } := by
  have near := ordered.near
  rw [candidates] at near
  exact ⟨(List.pairwise_cons.mp near).2, ordered.far, ordered.best⟩

theorem settled_iff (structural : Structural dist breadth property frontier)
    (ordered : Ordered dist breadth frontier) {nearest : D × V}
    (candidate : nearest ∈ frontier.candidates) :
    settled breadth frontier.result nearest = false ↔
      nearest.2 ∈ frontier.result.map Prod.snd := by
  obtain ⟨worst, rest, shape⟩ := List.exists_cons_of_length_pos structural.resultSome
  have worstIn : worst ∈ frontier.result := by
    rw [shape]
    exact List.mem_cons_self
  have own := structural.candidateItems nearest candidate
  have head : frontier.result.head? = some worst := by
    rw [shape]
    rfl
  constructor
  · intro open_
    rcases ordered.best nearest.2 own.2 with inside | ⟨full, nearer⟩
    · exact inside
    · have below := nearer worst worstIn
      rw [← own.1] at below
      have stops : settled breadth frontier.result nearest = true := by
        simp only [settled, head, (lt_iff _ _).mpr below, Bool.true_and, decide_eq_true_eq]
        exact full
      rw [open_] at stops
      cases stops
  · intro inside
    obtain ⟨item, held, same⟩ := List.mem_map.mp inside
    have far := ordered.far
    rw [shape] at far held
    have atMost := head_farthest far item held
    rw [← shape] at held
    rw [(structural.resultItems item held).1, same, ← own.1] at atMost
    simp [settled, head, not_lt.mpr atMost]

theorem mem_result_iff (structural : Structural dist breadth property frontier)
    (ordered : Ordered dist breadth frontier) (node : V) :
    node ∈ frontier.result.map Prod.snd ↔ node ∈ frontier.visited ∧
      frontier.visited.countP (fun other => dist other < dist node) < breadth := by
  have seen : ∀ other ∈ frontier.result.map Prod.snd, other ∈ frontier.visited :=
    fun _ member => structural.result_visited member
  have filtered : ∀ other, other ∈ frontier.visited.filter (fun other => dist other < dist node) ↔
      other ∈ frontier.visited ∧ dist other < dist node := by
    intro other
    simp
  rw [List.countP_eq_length_filter]
  constructor
  · intro inside
    refine ⟨seen node inside, ?_⟩
    -- A nearer node outside the result would be farther than `node` too.
    have nearer : ∀ other ∈ node :: frontier.visited.filter (fun other => dist other < dist node),
        other ∈ frontier.result.map Prod.snd := by
      intro other member
      rcases List.mem_cons.mp member with same | later
      · rw [same]
        exact inside
      · obtain ⟨visited, less⟩ := (filtered other).mp later
        rcases ordered.best other visited with kept | ⟨_, all⟩
        · exact kept
        · obtain ⟨item, held, same⟩ := List.mem_map.mp inside
          have below := all item held
          rw [(structural.resultItems item held).1, same] at below
          exact absurd less below.not_gt
    have distinct := List.nodup_cons.mpr
      ⟨fun member => lt_irrefl _ ((filtered node).mp member).2,
        structural.visitedNodup.filter (fun other => dist other < dist node)⟩
    have bound := (List.subperm_of_subset distinct nearer).length_le
    rw [List.length_cons, List.length_map] at bound
    have atMost := structural.resultBound
    omega
  · intro few
    obtain ⟨visited, few⟩ := few
    rcases ordered.best node visited with kept | ⟨full, all⟩
    · exact kept
    · have inside : ∀ other ∈ frontier.result.map Prod.snd,
          other ∈ frontier.visited.filter (fun other => dist other < dist node) := by
        intro other member
        obtain ⟨item, held, same⟩ := List.mem_map.mp member
        have less := all item held
        rw [(structural.resultItems item held).1, same] at less
        exact (filtered other).mpr ⟨seen other member, less⟩
      have bound := (List.subperm_of_subset structural.resultNodup inside).length_le
      rw [List.length_map] at bound
      omega

end Ordered

section Renaming

variable {D V W : Type}

/-- A naming of the same nodes, distances and edges. Neighbour lists may come in
another order. -/
structure Renaming (dist : V → D) (dist' : W → D) (neighbors : V → List V)
    (neighbors' : W → List W) (property : V → Prop) (rename : V → W) : Prop where
  closed : ∀ node, property node → ∀ next ∈ neighbors node, property next
  same : ∀ node, property node → dist' (rename node) = dist node
  edges : ∀ node, property node →
    ∀ next, next ∈ neighbors' (rename node) ↔ ∃ old ∈ neighbors node, rename old = next
  apart : Apart dist property

def Named (property : V → Prop) (rename : V → W) (node' : W) : Prop :=
  ∃ node, property node ∧ rename node = node'

namespace Renaming

variable {dist : V → D} {dist' : W → D} {neighbors : V → List V} {neighbors' : W → List W}
  {property : V → Prop} {rename : V → W}
  (names : Renaming dist dist' neighbors neighbors' property rename)

include names

theorem inj {first second : V} (ofFirst : property first) (ofSecond : property second)
    (equal : rename first = rename second) : first = second := by
  apply names.apart first second ofFirst ofSecond
  calc dist first = dist' (rename first) := (names.same first ofFirst).symm
    _ = dist' (rename second) := by rw [equal]
    _ = dist second := names.same second ofSecond

theorem apart' : Apart dist' (Named property rename) := by
  intro first second ofFirst ofSecond equal
  obtain ⟨node, holds, named⟩ := ofFirst
  obtain ⟨other, holdsToo, namedToo⟩ := ofSecond
  rw [← named, ← namedToo, names.same node holds, names.same other holdsToo] at equal
  rw [← named, ← namedToo, names.apart node other holds holdsToo equal]

theorem closed' (node' : W) (named : Named property rename node') :
    ∀ next ∈ neighbors' node', Named property rename next := by
  intro next member
  obtain ⟨node, holds, isNode⟩ := named
  rw [← isNode] at member
  obtain ⟨old, edge, isNext⟩ := (names.edges node holds next).mp member
  exact ⟨old, names.closed node holds old edge, isNext⟩

end Renaming

end Renaming

section Rename

variable {D V W : Type} [LinearOrder D] [OrderTop D] [LinearOrder V] [LinearOrder W]
  {dist : V → D} {dist' : W → D} {neighbors : V → List V} {neighbors' : W → List W}
  {property : V → Prop} {rename : V → W} {breadth : Nat}
  {frontier : Frontier D V} {frontier' : Frontier D W}

structure Proper (dist : V → D) (breadth : Nat) (property : V → Prop) (frontier : Frontier D V) :
    Prop where
  structural : Structural dist breadth property frontier
  ordered : Ordered dist breadth frontier

theorem Proper.expand {nearest : D × V} {rest : List (D × V)}
    (proper : Proper dist breadth property frontier) (apart : Apart dist property)
    (closed : ∀ node, property node → ∀ next ∈ neighbors node, property next)
    (candidates : frontier.candidates = nearest :: rest) :
    Proper dist breadth property ((neighbors nearest.2).foldl (visit dist breadth)
      { frontier with candidates := rest }) := by
  have known := proper.structural.head_reached candidates
  have popped := pop_structural proper.structural candidates
  have edges := closed nearest.2 known
  exact ⟨foldl_visit_structural _ popped edges,
    foldl_visit_ordered apart _ popped (pop_ordered proper.ordered candidates) edges⟩

structure Alike (dist : V → D) (dist' : W → D) (breadth : Nat) (property : V → Prop)
    (rename : V → W) (frontier : Frontier D V) (frontier' : Frontier D W) : Prop where
  proper : Proper dist breadth property frontier
  proper' : Proper dist' breadth (Named property rename) frontier'
  visited : ∀ node, property node → (rename node ∈ frontier'.visited ↔ node ∈ frontier.visited)

namespace Alike

variable (names : Renaming dist dist' neighbors neighbors' property rename)
  (agree : Alike dist dist' breadth property rename frontier frontier')

include names agree

theorem visited_perm : frontier'.visited.Perm (frontier.visited.map rename) := by
  have known := agree.proper.structural.reached
  have injective : (frontier.visited.map rename).Nodup := by
    apply List.Nodup.map_on _ agree.proper.structural.visitedNodup
    intro first inFirst second inSecond equal
    exact names.inj (known first inFirst) (known second inSecond) equal
  apply (List.perm_ext_iff_of_nodup agree.proper'.structural.visitedNodup injective).mpr
  intro node'
  rw [List.mem_map]
  constructor
  · intro member
    obtain ⟨node, holds, named⟩ := agree.proper'.structural.reached node' member
    rw [← named] at member
    exact ⟨node, (agree.visited node holds).mp member, named⟩
  · intro member
    obtain ⟨node, inside, named⟩ := member
    rw [← named]
    exact (agree.visited node (known node inside)).mpr inside

theorem result_iff {node : V} (holds : property node) :
    rename node ∈ frontier'.result.map Prod.snd ↔ node ∈ frontier.result.map Prod.snd := by
  have counts : frontier'.visited.countP (fun other => dist' other < dist' (rename node)) =
      frontier.visited.countP (fun other => dist other < dist node) := by
    rw [(agree.visited_perm names).countP_eq, List.countP_map]
    apply List.countP_congr
    intro other inside
    have known := agree.proper.structural.reached other inside
    simp only [Function.comp, names.same other known, names.same node holds]
  rw [mem_result_iff agree.proper.structural agree.proper.ordered,
    mem_result_iff agree.proper'.structural agree.proper'.ordered, counts, agree.visited node holds]

theorem result_eq : frontier'.result = frontier.result.map (fun item => (item.1, rename item.2)) := by
  have items : ∀ item ∈ frontier.result, item.1 = dist item.2 ∧ property item.2 := by
    intro item member
    have known := agree.proper.structural.resultItems item member
    exact ⟨known.1, agree.proper.structural.reached _ known.2⟩
  have items' : ∀ item ∈ frontier'.result, item.1 = dist' item.2 ∧ Named property rename item.2 := by
    intro item member
    have known := agree.proper'.structural.resultItems item member
    exact ⟨known.1, agree.proper'.structural.reached _ known.2⟩
  have renamed : ∀ item ∈ frontier.result, (item.1, rename item.2) = (dist' (rename item.2), rename item.2) := by
    intro item member
    rw [(items item member).1, names.same _ (items item member).2]
  have members : ∀ item, item ∈ frontier'.result ↔
      item ∈ frontier.result.map (fun item => (item.1, rename item.2)) := by
    intro item
    rw [List.mem_map]
    constructor
    · intro member
      obtain ⟨own, node, holds, named⟩ := items' item member
      have inside := (agree.result_iff names holds).mp
        (List.mem_map.mpr ⟨item, member, named.symm⟩)
      obtain ⟨old, oldIn, isNode⟩ := List.mem_map.mp inside
      refine ⟨old, oldIn, ?_⟩
      rw [renamed old oldIn, isNode, named, ← own]
    · intro member
      obtain ⟨old, oldIn, same⟩ := member
      have inside := (agree.result_iff names (items old oldIn).2).mpr
        (List.mem_map.mpr ⟨old, oldIn, rfl⟩)
      obtain ⟨other, otherIn, isNode⟩ := List.mem_map.mp inside
      have equal : other = item := by
        rw [← same, renamed old oldIn, ← isNode, ← (items' other otherIn).1]
      rw [← equal]
      exact otherIn
  have nodup' := List.Nodup.of_map Prod.snd agree.proper'.structural.resultNodup
  have nodup : (frontier.result.map (fun item => (item.1, rename item.2))).Nodup := by
    apply List.Nodup.map_on _ (List.Nodup.of_map Prod.snd agree.proper.structural.resultNodup)
    intro first inFirst second inSecond equal
    obtain ⟨distances, named⟩ := Prod.mk.inj equal
    exact Prod.ext distances (names.inj (items first inFirst).2 (items second inSecond).2 named)
  have far' := agree.proper'.ordered.far.imp fst_le_of_not_pairLt
  apply List.Perm.eq_of_pairwise _ far'
  · rw [List.pairwise_map]
    exact agree.proper.ordered.far.imp fst_le_of_not_pairLt
  · exact (List.perm_ext_iff_of_nodup nodup' nodup).mpr members
  · intro first second inFirst inSecond atLeast atMost
    obtain ⟨own, named⟩ := items' first inFirst
    obtain ⟨ownToo, namedToo⟩ := items' second ((members second).mpr inSecond)
    have tie := le_antisymm atMost atLeast
    rw [own, ownToo] at tie
    have nodes := names.apart' _ _ named namedToo tie
    exact Prod.ext (le_antisymm atMost atLeast) nodes

end Alike

/-- Two explorations in the same state, up to candidates that are not in the result. -/
structure Match (dist : V → D) (dist' : W → D) (breadth : Nat) (property : V → Prop)
    (rename : V → W) (frontier : Frontier D V) (frontier' : Frontier D W) : Prop where
  alike : Alike dist dist' breadth property rename frontier frontier'
  opened : ∀ node ∈ frontier.result.map Prod.snd,
    (rename node ∈ frontier'.candidates.map Prod.snd ↔ node ∈ frontier.candidates.map Prod.snd)

omit [LinearOrder D] [OrderTop D] [LinearOrder V] in
theorem mem_rest_iff {nearest : D × V} {rest : List (D × V)}
    (structural : Structural dist breadth property frontier)
    (candidates : frontier.candidates = nearest :: rest) (node : V) :
    node ∈ rest.map Prod.snd ↔ node ∈ frontier.candidates.map Prod.snd ∧ node ≠ nearest.2 := by
  have distinct := structural.candidateNodup
  rw [candidates, List.map_cons] at distinct
  rw [candidates, List.map_cons, List.mem_cons]
  constructor
  · intro member
    refine ⟨Or.inr member, fun same => ?_⟩
    rw [same] at member
    exact (List.nodup_cons.mp distinct).1 member
  · intro both
    exact both.1.resolve_left both.2

theorem Match.expand (names : Renaming dist dist' neighbors neighbors' property rename)
    (agree : Match dist dist' breadth property rename frontier frontier')
    {nearest : D × V} {nearest' : D × W} {rest : List (D × V)} {rest' : List (D × W)}
    (candidates : frontier.candidates = nearest :: rest)
    (candidates' : frontier'.candidates = nearest' :: rest')
    (named : nearest'.2 = rename nearest.2) :
    Match dist dist' breadth property rename
      ((neighbors nearest.2).foldl (visit dist breadth) { frontier with candidates := rest })
      ((neighbors' nearest'.2).foldl (visit dist' breadth)
        { frontier' with candidates := rest' }) := by
  have proper := agree.alike.proper
  have proper' := agree.alike.proper'
  have known := proper.structural.head_reached candidates
  have visited : ∀ node, property node →
      (rename node ∈ ((neighbors' nearest'.2).foldl (visit dist' breadth)
          { frontier' with candidates := rest' }).visited ↔
        node ∈ ((neighbors nearest.2).foldl (visit dist breadth)
          { frontier with candidates := rest }).visited) := by
    intro node holds
    rw [mem_foldl_visited, mem_foldl_visited, named, names.edges nearest.2 known,
      agree.alike.visited node holds]
    apply or_congr_right
    constructor
    · intro edge
      obtain ⟨old, member, equal⟩ := edge
      rw [← names.inj (names.closed nearest.2 known old member) holds equal]
      exact member
    · intro member
      exact ⟨node, member, rfl⟩
  have alike := Alike.mk (proper.expand names.apart names.closed candidates)
    (proper'.expand names.apart' names.closed' candidates') visited
  have grown := foldl_visit_extends dist breadth (neighbors nearest.2)
    (Extends.refl { frontier with candidates := rest })
  have grown' := foldl_visit_extends dist' breadth (neighbors' nearest'.2)
    (Extends.refl { frontier' with candidates := rest' })
  apply Match.mk alike
  intro node member
  have holds := alike.proper.structural.reached node (alike.proper.structural.result_visited member)
  by_cases before : node ∈ frontier.visited
  · -- A node visited before is open if it was, unless it is the one just expanded.
    have before' : rename node ∈ frontier'.visited := (agree.alike.visited node holds).mpr before
    have kept : node ∈ frontier.result.map Prod.snd :=
      (grown.result node member).resolve_right (fun new => new.1 before)
    have apart : rename node ≠ nearest'.2 ↔ node ≠ nearest.2 := by
      rw [named]
      exact not_congr ⟨names.inj holds known, fun same => by rw [same]⟩
    rw [grown.stays before, grown'.stays before', mem_rest_iff proper.structural candidates,
      mem_rest_iff proper'.structural candidates', agree.opened node kept, apart]
  · have before' : rename node ∉ frontier'.visited :=
      fun seen => before ((agree.alike.visited node holds).mp seen)
    have member' := (alike.result_iff names holds).mpr member
    have open_ := (grown.result node member).resolve_left
      (fun old => before (proper.structural.result_visited old))
    have open' := (grown'.result _ member').resolve_left
      (fun old => before' (proper'.structural.result_visited old))
    exact iff_of_true open'.2 open_.2

theorem Proper.nearest_le {nearest : D × V} {rest : List (D × V)}
    (proper : Proper dist breadth property frontier)
    (candidates : frontier.candidates = nearest :: rest) {node : V}
    (candidate : node ∈ frontier.candidates.map Prod.snd) : dist nearest.2 ≤ dist node := by
  obtain ⟨item, member, same⟩ := List.mem_map.mp candidate
  have own := proper.structural.candidateItems nearest (by rw [candidates]; exact List.mem_cons_self)
  have itsOwn := proper.structural.candidateItems item member
  have near := proper.ordered.near
  rw [candidates] at near member
  rw [← own.1, ← same, ← itsOwn.1]
  rcases List.mem_cons.mp member with isNearest | later
  · rw [isNearest]
  · exact fst_le_of_not_pairLt ((List.pairwise_cons.mp near).1 item later)

theorem Proper.nearest_kept {nearest : D × V} {rest : List (D × V)}
    (proper : Proper dist breadth property frontier)
    (candidates : frontier.candidates = nearest :: rest) {node : V}
    (candidate : node ∈ frontier.candidates.map Prod.snd)
    (kept : node ∈ frontier.result.map Prod.snd) : nearest.2 ∈ frontier.result.map Prod.snd := by
  have own := proper.structural.candidateItems nearest (by rw [candidates]; exact List.mem_cons_self)
  rcases proper.ordered.best nearest.2 own.2 with inside | ⟨_, nearer⟩
  · exact inside
  · obtain ⟨item, held, same⟩ := List.mem_map.mp kept
    have below := nearer item held
    rw [(proper.structural.resultItems item held).1, same] at below
    exact absurd (proper.nearest_le candidates candidate) below.not_ge

/-- The loop stops when no open node is in the result, and otherwise expands the
nearest one, which is. -/
theorem Proper.explore_cases (proper : Proper dist breadth property frontier) {fuel : Nat}
    {final : Frontier D V} (found : explore dist neighbors breadth (fuel + 1) frontier = some final) :
    final = frontier ∧ (∀ node ∈ frontier.candidates.map Prod.snd,
        node ∉ frontier.result.map Prod.snd) ∨
      ∃ nearest rest, frontier.candidates = nearest :: rest ∧
        nearest.2 ∈ frontier.result.map Prod.snd ∧
        explore dist neighbors breadth fuel ((neighbors nearest.2).foldl (visit dist breadth)
          { frontier with candidates := rest }) = some final := by
  unfold explore at found
  cases candidates : frontier.candidates with
  | nil =>
      simp only [candidates, Option.some.injEq] at found
      left
      exact ⟨found.symm, fun node none => absurd none List.not_mem_nil⟩
  | cons nearest rest =>
      have first : nearest ∈ frontier.candidates := by
        rw [candidates]
        exact List.mem_cons_self
      simp only [candidates] at found
      cases stop : settled breadth frontier.result nearest with
      | true =>
          simp only [stop, if_true, Option.some.injEq] at found
          left
          refine ⟨found.symm, fun node candidate kept => ?_⟩
          rw [← candidates] at candidate
          have open_ := (settled_iff proper.structural proper.ordered first).mpr
            (proper.nearest_kept candidates candidate kept)
          rw [stop] at open_
          cases open_
      | false =>
          simp only [stop, Bool.false_eq_true, if_false] at found
          exact Or.inr ⟨nearest, rest, rfl,
            (settled_iff proper.structural proper.ordered first).mp stop, found⟩

theorem explore_match (names : Renaming dist dist' neighbors neighbors' property rename)
    (fuel fuel' : Nat) (frontier : Frontier D V) (frontier' : Frontier D W)
    (agree : Match dist dist' breadth property rename frontier frontier')
    {final : Frontier D V} {final' : Frontier D W}
    (found : explore dist neighbors breadth fuel frontier = some final)
    (found' : explore dist' neighbors' breadth fuel' frontier' = some final') :
    final'.result = final.result.map (fun item => (item.1, rename item.2)) := by
  induction fuel generalizing fuel' frontier frontier' with
  | zero => cases found
  | succ fuel ih =>
      cases fuel' with
      | zero => cases found'
      | succ fuel' =>
          have proper := agree.alike.proper
          have proper' := agree.alike.proper'
          rcases proper.explore_cases found with ⟨same, closed⟩ | ⟨nearest, rest, candidates, kept, goes⟩
          · rcases proper'.explore_cases found' with ⟨same', _⟩ | ⟨nearest', rest', candidates', kept', _⟩
            · rw [same, same']
              exact agree.alike.result_eq names
            · -- The open node of one result names an open node of the other.
              have first : nearest' ∈ frontier'.candidates := by
                rw [candidates']
                exact List.mem_cons_self
              obtain ⟨node, holds, named⟩ := proper'.structural.reached _
                (proper'.structural.candidateItems nearest' first).2
              rw [← named] at kept'
              have inside := (agree.alike.result_iff names holds).mp kept'
              have candidate : rename node ∈ frontier'.candidates.map Prod.snd :=
                List.mem_map.mpr ⟨nearest', first, named.symm⟩
              exact absurd inside (closed node ((agree.opened node inside).mp candidate))
          · have first : nearest ∈ frontier.candidates := by
              rw [candidates]
              exact List.mem_cons_self
            have known := proper.structural.reached _
              (proper.structural.candidateItems nearest first).2
            have candidate : nearest.2 ∈ frontier.candidates.map Prod.snd :=
              List.mem_map.mpr ⟨nearest, first, rfl⟩
            have candidate' := (agree.opened nearest.2 kept).mpr candidate
            have inside' := (agree.alike.result_iff names known).mpr kept
            rcases proper'.explore_cases found' with ⟨_, closed'⟩ | ⟨nearest', rest', candidates', kept', goes'⟩
            · exact absurd inside' (closed' _ candidate')
            · have first' : nearest' ∈ frontier'.candidates := by
                rw [candidates']
                exact List.mem_cons_self
              obtain ⟨node, holds, named⟩ := proper'.structural.reached _
                (proper'.structural.candidateItems nearest' first').2
              rw [← named] at kept'
              have inside := (agree.alike.result_iff names holds).mp kept'
              have open_ := (agree.opened node inside).mp
                (List.mem_map.mpr ⟨nearest', first', named.symm⟩)
              have low := proper.nearest_le candidates open_
              have high := proper'.nearest_le candidates' candidate'
              rw [← named, names.same node holds, names.same nearest.2 known] at high
              have equal := names.apart _ _ holds known (le_antisymm high low)
              rw [equal] at named
              exact ih fuel' _ _ (agree.expand names candidates candidates' named.symm) goes goes'

theorem explore_rename (names : Renaming dist dist' neighbors neighbors' property rename)
    (fuel fuel' : Nat) {entry : V} (positive : 1 ≤ breadth) (holds : property entry)
    {final : Frontier D V} {final' : Frontier D W}
    (found : explore dist neighbors breadth fuel (start dist entry) = some final)
    (found' : explore dist' neighbors' breadth fuel' (start dist' (rename entry)) = some final') :
    final'.result = final.result.map (fun item => (item.1, rename item.2)) := by
  have proper : Proper dist breadth property (start dist entry) :=
    ⟨start_structural dist breadth entry holds positive, start_ordered dist breadth entry⟩
  have proper' : Proper dist' breadth (Named property rename) (start dist' (rename entry)) :=
    ⟨start_structural dist' breadth (rename entry) ⟨entry, holds, rfl⟩ positive,
      start_ordered dist' breadth (rename entry)⟩
  have visited : ∀ node, property node →
      (rename node ∈ (start dist' (rename entry)).visited ↔ node ∈ (start dist entry).visited) := by
    intro node known
    simp only [start, List.mem_singleton]
    exact ⟨names.inj known holds, fun same => by rw [same]⟩
  have opened : ∀ node ∈ (start dist entry).result.map Prod.snd,
      (rename node ∈ (start dist' (rename entry)).candidates.map Prod.snd ↔
        node ∈ (start dist entry).candidates.map Prod.snd) := by
    intro node member
    have same : node = entry := List.mem_singleton.mp member
    rw [same]
    exact iff_of_true List.mem_cons_self List.mem_cons_self
  exact explore_match names fuel fuel' _ _ ⟨⟨proper, proper', visited⟩, opened⟩ found found'

end Rename

end VectorVault.BestFirst
