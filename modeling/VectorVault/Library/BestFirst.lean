import VectorVault.Library.FloatOrder

/-! Best-first exploration of a directed graph with a bounded result.

Two priority queues drive it: the nearest open candidate is expanded next, the
farthest kept result is dropped when there are more than `breadth`. The loop
stops when the nearest candidate is farther than a full result's worst member.

The structural invariant needs no law of the distances. With totally ordered
distances the result is at all times the best part of what was visited, which
settles completeness and independence from the order of edges. -/

namespace VectorVault.BestFirst

open FloatOrder

structure Frontier (D V : Type) where
  candidates : List (D × V)
  result : List (D × V)
  visited : List V

section Algorithm

variable {D V : Type} [FloatOrder D] [LinearOrder V]

/-- A min-heap of pairs as its ascending listing. -/
def pushNear (item : D × V) (heap : List (D × V)) : List (D × V) :=
  heap.orderedInsert (fun first second => pairLt second first = false) item

/-- A max-heap of pairs as its descending listing. -/
def pushFar (item : D × V) (heap : List (D × V)) : List (D × V) :=
  heap.orderedInsert (fun first second => pairLt first second = false) item

def accepts (breadth : Nat) (result : List (D × V)) (distance : D) : Bool :=
  decide (result.length < breadth) ||
    match result.head? with
    | some worst => lt distance worst.1
    | none => false

/-- Keeps a new item and drops the farthest one when there are too many. -/
def keep (breadth : Nat) (item : D × V) (result : List (D × V)) : List (D × V) :=
  if (pushFar item result).length > breadth then (pushFar item result).tail
  else pushFar item result

def visit (dist : V → D) (breadth : Nat) (frontier : Frontier D V) (node : V) : Frontier D V :=
  if node ∈ frontier.visited then frontier
  else if accepts breadth frontier.result (dist node) then
    { candidates := pushNear (dist node, node) frontier.candidates
      result := keep breadth (dist node, node) frontier.result
      visited := node :: frontier.visited }
  else { frontier with visited := node :: frontier.visited }

/-- The loop's early exit: the result is full and all of it is nearer. -/
def settled (breadth : Nat) (result : List (D × V)) (nearest : D × V) : Bool :=
  match result.head? with
  | some worst => lt worst.1 nearest.1 && decide (result.length ≥ breadth)
  | none => false

/-- `none` when `fuel` rounds were not enough. -/
def explore (dist : V → D) (neighbors : V → List V) (breadth : Nat) :
    Nat → Frontier D V → Option (Frontier D V)
  | 0, _ => none
  | fuel + 1, frontier =>
      match frontier.candidates with
      | [] => some frontier
      | nearest :: rest =>
          if settled breadth frontier.result nearest then some frontier
          else explore dist neighbors breadth fuel
            ((neighbors nearest.2).foldl (visit dist breadth) { frontier with candidates := rest })

def start (dist : V → D) (entry : V) : Frontier D V :=
  ⟨[(dist entry, entry)], [(dist entry, entry)], [entry]⟩

end Algorithm

section Structure

variable {D V : Type} [FloatOrder D] [LinearOrder V] (dist : V → D) (neighbors : V → List V)
  (breadth : Nat)

theorem pushNear_perm (item : D × V) (heap : List (D × V)) :
    (pushNear item heap).Perm (item :: heap) := List.perm_orderedInsert _ item heap

theorem pushFar_perm (item : D × V) (heap : List (D × V)) :
    (pushFar item heap).Perm (item :: heap) := List.perm_orderedInsert _ item heap

theorem keep_subperm (item : D × V) (result : List (D × V)) :
    (keep breadth item result).Subperm (item :: result) := by
  unfold keep
  split
  · exact (List.tail_sublist _).subperm.trans (pushFar_perm item result).subperm
  · exact (pushFar_perm item result).subperm

theorem keep_length (item : D × V) (result : List (D × V)) (bound : result.length ≤ breadth) :
    (keep breadth item result).length ≤ breadth := by
  have grown := (pushFar_perm item result).length_eq
  rw [List.length_cons] at grown
  unfold keep
  split
  · rw [List.length_tail]
    omega
  · omega

theorem keep_some (item : D × V) (result : List (D × V)) (positive : 1 ≤ breadth) :
    1 ≤ (keep breadth item result).length := by
  have grown := (pushFar_perm item result).length_eq
  rw [List.length_cons] at grown
  unfold keep
  split
  · rw [List.length_tail]
    omega
  · omega

/-- What holds of every frontier, whatever the distances are: everything seen has
a given property the edges keep, items carry their node's distance, and the
result has distinct nodes among the visited ones. -/
structure Structural (property : V → Prop) (frontier : Frontier D V) : Prop where
  reached : ∀ node ∈ frontier.visited, property node
  visitedNodup : frontier.visited.Nodup
  candidateItems : ∀ item ∈ frontier.candidates, item.1 = dist item.2 ∧ item.2 ∈ frontier.visited
  candidateNodup : (frontier.candidates.map Prod.snd).Nodup
  resultItems : ∀ item ∈ frontier.result, item.1 = dist item.2 ∧ item.2 ∈ frontier.visited
  resultNodup : (frontier.result.map Prod.snd).Nodup
  resultBound : frontier.result.length ≤ breadth
  resultSome : 1 ≤ frontier.result.length

variable {dist neighbors breadth} {property : V → Prop} {frontier : Frontier D V}

omit [FloatOrder D] [LinearOrder V] in
theorem start_structural (dist : V → D) (breadth : Nat) (entry : V) (holds : property entry) (positive : 1 ≤ breadth) :
    Structural dist breadth property (start dist entry) where
  reached := by
    intro node member
    rw [List.mem_singleton.mp member]
    exact holds
  visitedNodup := List.nodup_singleton entry
  candidateItems := by
    intro item member
    rw [List.mem_singleton.mp member]
    exact ⟨rfl, List.mem_singleton.mpr rfl⟩
  candidateNodup := List.nodup_singleton entry
  resultItems := by
    intro item member
    rw [List.mem_singleton.mp member]
    exact ⟨rfl, List.mem_singleton.mpr rfl⟩
  resultNodup := List.nodup_singleton entry
  resultBound := positive
  resultSome := le_refl 1

theorem visit_cases (dist : V → D) (breadth : Nat) (frontier : Frontier D V) (node : V) :
    node ∈ frontier.visited ∧ visit dist breadth frontier node = frontier ∨
      node ∉ frontier.visited ∧ accepts breadth frontier.result (dist node) = true ∧
        visit dist breadth frontier node =
          { candidates := pushNear (dist node, node) frontier.candidates
            result := keep breadth (dist node, node) frontier.result
            visited := node :: frontier.visited } ∨
      node ∉ frontier.visited ∧ accepts breadth frontier.result (dist node) = false ∧
        visit dist breadth frontier node =
          { frontier with visited := node :: frontier.visited } := by
  unfold visit
  by_cases seen : node ∈ frontier.visited
  · exact Or.inl ⟨seen, if_pos seen⟩
  · cases accepted : accepts breadth frontier.result (dist node) with
    | true => exact Or.inr (Or.inl ⟨seen, rfl, by rw [if_neg seen, if_pos rfl]⟩)
    | false => exact Or.inr (Or.inr ⟨seen, rfl, by rw [if_neg seen]; simp⟩)

theorem visit_structural (structural : Structural dist breadth property frontier) (node : V)
    (holds : property node) : Structural dist breadth property (visit dist breadth frontier node) := by
  have fresh : ∀ items : List (D × V),
      (∀ item ∈ items, item.1 = dist item.2 ∧ item.2 ∈ frontier.visited) →
      node ∉ frontier.visited → (items.map Prod.snd).Nodup →
      (((dist node, node) :: items).map Prod.snd).Nodup := by
    intro items known unseen nodup
    refine List.nodup_cons.mpr ⟨?_, nodup⟩
    intro member
    obtain ⟨item, inside, same⟩ := List.mem_map.mp member
    have visited := (known item inside).2
    rw [same] at visited
    exact unseen visited
  have grown : ∀ items : List (D × V),
      (∀ item ∈ items, item.1 = dist item.2 ∧ item.2 ∈ frontier.visited) →
      ∀ item ∈ (dist node, node) :: items, item.1 = dist item.2 ∧ item.2 ∈ node :: frontier.visited := by
    intro items known item member
    rcases List.mem_cons.mp member with rfl | member
    · exact ⟨rfl, List.mem_cons_self⟩
    · exact ⟨(known item member).1, List.mem_cons_of_mem _ (known item member).2⟩
  have reached : ∀ other ∈ node :: frontier.visited, property other := by
    intro other member
    rcases List.mem_cons.mp member with rfl | member
    · exact holds
    · exact structural.reached other member
  rcases visit_cases dist breadth frontier node with
    ⟨_, same⟩ | ⟨unseen, _, same⟩ | ⟨unseen, _, same⟩
  · rw [same]
    exact structural
  · rw [same]
    have kept := keep_subperm breadth (dist node, node) frontier.result
    refine ⟨reached, List.nodup_cons.mpr ⟨unseen, structural.visitedNodup⟩, ?_, ?_, ?_, ?_,
      keep_length breadth _ _ structural.resultBound,
      keep_some breadth _ _ (structural.resultSome.trans structural.resultBound)⟩
    · intro item member
      exact grown _ structural.candidateItems item ((pushNear_perm _ _).mem_iff.mp member)
    · exact ((pushNear_perm _ _).map Prod.snd).nodup_iff.mpr
        (fresh _ structural.candidateItems unseen structural.candidateNodup)
    · intro item member
      exact grown _ structural.resultItems item (kept.subset member)
    · obtain ⟨list, permuted, sublist⟩ := kept
      exact (permuted.map Prod.snd).nodup_iff.mp ((sublist.map Prod.snd).nodup
        (fresh _ structural.resultItems unseen structural.resultNodup))
  · rw [same]
    refine ⟨reached, List.nodup_cons.mpr ⟨unseen, structural.visitedNodup⟩, ?_,
      structural.candidateNodup, ?_, structural.resultNodup, structural.resultBound,
      structural.resultSome⟩
    · intro item member
      exact grown _ structural.candidateItems item (List.mem_cons_of_mem _ member)
    · intro item member
      exact grown _ structural.resultItems item (List.mem_cons_of_mem _ member)

theorem foldl_visit_structural (nodes : List V)
    (structural : Structural dist breadth property frontier) (holds : ∀ node ∈ nodes, property node) :
    Structural dist breadth property (nodes.foldl (visit dist breadth) frontier) := by
  induction nodes generalizing frontier with
  | nil => exact structural
  | cons head tail ih =>
      exact ih (visit_structural structural head (holds head List.mem_cons_self))
        (fun node member => holds node (List.mem_cons_of_mem _ member))

omit [FloatOrder D] [LinearOrder V] in
theorem Structural.head_reached {nearest : D × V} {rest : List (D × V)}
    (structural : Structural dist breadth property frontier)
    (candidates : frontier.candidates = nearest :: rest) : property nearest.2 := by
  apply structural.reached _ (structural.candidateItems nearest _).2
  rw [candidates]
  exact List.mem_cons_self

omit [FloatOrder D] [LinearOrder V] in
theorem Structural.result_visited (structural : Structural dist breadth property frontier) {node : V}
    (member : node ∈ frontier.result.map Prod.snd) : node ∈ frontier.visited := by
  rcases List.mem_map.mp member with ⟨item, held, same⟩
  rw [← same]
  exact (structural.resultItems item held).2

omit [FloatOrder D] [LinearOrder V] in
theorem pop_structural {nearest : D × V} {rest : List (D × V)}
    (structural : Structural dist breadth property frontier)
    (candidates : frontier.candidates = nearest :: rest) :
    Structural dist breadth property { frontier with candidates := rest } := by
  have items := structural.candidateItems
  have nodup := structural.candidateNodup
  rw [candidates] at items nodup
  exact ⟨structural.reached, structural.visitedNodup,
    fun item member => items item (List.mem_cons_of_mem _ member),
    (List.nodup_cons.mp nodup).2, structural.resultItems, structural.resultNodup,
    structural.resultBound, structural.resultSome⟩

def unvisited (nodes visited : List V) : List V :=
  nodes.filter (fun node => decide (node ∉ visited))

/-- Rounds still to come: open candidates and nodes not yet visited. -/
def pending (nodes : List V) (frontier : Frontier D V) : Nat :=
  frontier.candidates.length + (unvisited nodes frontier.visited).length

theorem unvisited_cons_lt (nodes visited : List V) {node : V} (listed : node ∈ nodes)
    (unseen : node ∉ visited) :
    (unvisited nodes (node :: visited)).length < (unvisited nodes visited).length := by
  have refilter : unvisited nodes (node :: visited) =
      (unvisited nodes visited).filter (fun other => decide (other ≠ node)) := by
    unfold unvisited
    rw [List.filter_filter]
    apply List.filter_congr
    intro other _
    simp [not_or]
  rw [refilter]
  refine lt_of_le_of_ne (List.length_filter_le _ _) ?_
  intro same
  have all := List.length_filter_eq_length_iff.mp same node
    (List.mem_filter.mpr ⟨listed, by simpa using unseen⟩)
  simp at all

theorem visit_pending_le (nodes : List V) (node : V) (listed : node ∈ nodes) :
    pending nodes (visit dist breadth frontier node) ≤ pending nodes frontier := by
  rcases visit_cases dist breadth frontier node with
    ⟨_, same⟩ | ⟨unseen, _, same⟩ | ⟨unseen, _, same⟩
  · rw [same]
  · have fewer := unvisited_cons_lt nodes frontier.visited listed unseen
    have grown := (pushNear_perm (dist node, node) frontier.candidates).length_eq
    rw [List.length_cons] at grown
    rw [same]
    simp only [pending]
    omega
  · have fewer := unvisited_cons_lt nodes frontier.visited listed unseen
    rw [same]
    simp only [pending]
    omega

theorem foldl_visit_pending_le (dist : V → D) (breadth : Nat) (frontier : Frontier D V)
    (nodes visits : List V) (listed : ∀ node ∈ visits, node ∈ nodes) :
    pending nodes (visits.foldl (visit dist breadth) frontier) ≤ pending nodes frontier := by
  induction visits generalizing frontier with
  | nil => exact le_refl _
  | cons head tail ih =>
      exact (ih _ (fun node member => listed node (List.mem_cons_of_mem _ member))).trans
        (visit_pending_le nodes head (listed head List.mem_cons_self))

/-- Induction rule of the loop: an invariant kept by popping and expanding the
nearest candidate holds at the exit, which enough fuel reaches. -/
theorem explore_induction (dist : V → D) (neighbors : V → List V) (breadth : Nat) (nodes : List V) (invariant : Frontier D V → Prop)
    (closed : ∀ node, property node → ∀ next ∈ neighbors node, property next)
    (listed : ∀ node, property node → node ∈ nodes)
    (step : ∀ (frontier : Frontier D V) (nearest : D × V) (rest : List (D × V)),
      Structural dist breadth property frontier → invariant frontier →
      frontier.candidates = nearest :: rest → settled breadth frontier.result nearest = false →
      invariant ((neighbors nearest.2).foldl (visit dist breadth)
        { frontier with candidates := rest }))
    (fuel : Nat) (frontier : Frontier D V) (structural : Structural dist breadth property frontier)
    (holds : invariant frontier) (enough : pending nodes frontier < fuel) :
    ∃ final, explore dist neighbors breadth fuel frontier = some final ∧
      Structural dist breadth property final ∧ invariant final ∧
      (final.candidates = [] ∨ ∃ nearest rest, final.candidates = nearest :: rest ∧
        settled breadth final.result nearest = true) := by
  induction fuel generalizing frontier with
  | zero => omega
  | succ fuel ih =>
      unfold explore
      cases candidates : frontier.candidates with
      | nil => exact ⟨frontier, rfl, structural, holds, Or.inl candidates⟩
      | cons nearest rest =>
          cases stop : settled breadth frontier.result nearest with
          | true =>
              exact ⟨frontier, by simp [stop], structural, holds,
                Or.inr ⟨nearest, rest, candidates, stop⟩⟩
          | false =>
              have popped := pop_structural structural candidates
              have known := structural.head_reached candidates
              have edges := closed nearest.2 known
              have next := foldl_visit_structural (neighbors nearest.2) popped edges
              have fewer := foldl_visit_pending_le dist breadth
                { frontier with candidates := rest } nodes (neighbors nearest.2)
                (fun node member => listed node (edges node member))
              have less : pending nodes { frontier with candidates := rest } <
                  pending nodes frontier := by
                simp only [pending, candidates, List.length_cons]
                omega
              obtain ⟨final, found, rest_⟩ := ih _ next
                (step frontier nearest rest structural holds candidates stop) (by omega)
              exact ⟨final, by simpa [stop] using found, rest_⟩

omit [FloatOrder D] in
theorem start_pending_le (dist : V → D) (nodes : List V) (entry : V) (listed : entry ∈ nodes) :
    pending nodes (start dist entry) ≤ nodes.length := by
  have fewer := unvisited_cons_lt nodes [] listed (by simp)
  have all : (unvisited nodes []).length ≤ nodes.length := List.length_filter_le _ nodes
  simp only [pending, start, List.length_singleton]
  omega

end Structure

section Exhaustive

variable {D V : Type} [FloatOrder D] [LinearOrder V] {dist : V → D} {neighbors : V → List V}
  {breadth : Nat} {property : V → Prop} {nodes : List V} {frontier : Frontier D V}

abbrev Connected (neighbors : V → List V) (first second : V) : Prop :=
  Relation.ReflTransGen (fun node next => next ∈ neighbors node) first second

/-- Nothing seen was turned away or dropped, and all but the open candidates are
expanded. -/
structure Exhaustive (neighbors : V → List V) (frontier : Frontier D V) : Prop where
  kept : ∀ node ∈ frontier.visited, node ∈ frontier.result.map Prod.snd
  expanded : ∀ node ∈ frontier.visited, node ∈ frontier.candidates.map Prod.snd ∨
    ∀ next ∈ neighbors node, next ∈ frontier.visited

structure Grown (base frontier : Frontier D V) : Prop where
  kept : ∀ node ∈ frontier.visited, node ∈ frontier.result.map Prod.snd
  seen : ∀ node ∈ base.visited, node ∈ frontier.visited
  opened : ∀ node ∈ base.candidates.map Prod.snd, node ∈ frontier.candidates.map Prod.snd
  fresh : ∀ node ∈ frontier.visited, node ∈ base.visited ∨
    node ∈ frontier.candidates.map Prod.snd

theorem visit_wide (structural : Structural dist breadth property frontier)
    (listed : ∀ node, property node → node ∈ nodes) (wide : nodes.length ≤ breadth) {node : V}
    (holds : property node) (unseen : node ∉ frontier.visited) :
    visit dist breadth frontier node =
      { candidates := pushNear (dist node, node) frontier.candidates
        result := pushFar (dist node, node) frontier.result
        visited := node :: frontier.visited } := by
  have inside : ∀ other ∈ node :: frontier.visited, other ∈ nodes := by
    intro other member
    rcases List.mem_cons.mp member with same | old
    · rw [same]
      exact listed node holds
    · exact listed other (structural.reached other old)
  have room := (List.subperm_of_subset
    (List.nodup_cons.mpr ⟨unseen, structural.visitedNodup⟩) inside).length_le
  have fewer := (List.subperm_of_subset structural.resultNodup
    (fun _ member => structural.result_visited member)).length_le
  rw [List.length_cons] at room
  rw [List.length_map] at fewer
  have accepted : accepts breadth frontier.result (dist node) = true := by
    have short : frontier.result.length < breadth := by omega
    simp only [accepts, short, decide_true, Bool.true_or]
  have all : keep breadth (dist node, node) frontier.result =
      pushFar (dist node, node) frontier.result := by
    have grown := (pushFar_perm (dist node, node) frontier.result).length_eq
    rw [List.length_cons] at grown
    rw [keep, if_neg (by omega)]
  rw [visit, if_neg unseen, if_pos accepted, all]

theorem visit_grown {base : Frontier D V} (structural : Structural dist breadth property frontier)
    (listed : ∀ node, property node → node ∈ nodes) (wide : nodes.length ≤ breadth)
    (grown : Grown base frontier) {node : V} (holds : property node) :
    Grown base (visit dist breadth frontier node) ∧
      node ∈ (visit dist breadth frontier node).visited := by
  by_cases seen : node ∈ frontier.visited
  · have same : visit dist breadth frontier node = frontier := if_pos seen
    rw [same]
    exact ⟨grown, seen⟩
  · have near := ((pushNear_perm (dist node, node) frontier.candidates).map Prod.snd)
    have far := ((pushFar_perm (dist node, node) frontier.result).map Prod.snd)
    have kept : ∀ other ∈ node :: frontier.visited,
        other ∈ (pushFar (dist node, node) frontier.result).map Prod.snd := by
      intro other member
      apply far.mem_iff.mpr
      rcases List.mem_cons.mp member with same | old
      · rw [same]
        exact List.mem_cons_self
      · exact List.mem_cons_of_mem _ (grown.kept other old)
    have opened : ∀ other ∈ base.candidates.map Prod.snd,
        other ∈ (pushNear (dist node, node) frontier.candidates).map Prod.snd :=
      fun other member => near.mem_iff.mpr (List.mem_cons_of_mem _ (grown.opened other member))
    have fresh : ∀ other ∈ node :: frontier.visited, other ∈ base.visited ∨
        other ∈ (pushNear (dist node, node) frontier.candidates).map Prod.snd := by
      intro other member
      rcases List.mem_cons.mp member with same | old
      · right
        apply near.mem_iff.mpr
        rw [same]
        exact List.mem_cons_self
      · rcases grown.fresh other old with before | candidate
        · exact Or.inl before
        · exact Or.inr (near.mem_iff.mpr (List.mem_cons_of_mem _ candidate))
    rw [visit_wide structural listed wide holds seen]
    exact ⟨⟨kept, fun other member => List.mem_cons_of_mem _ (grown.seen other member), opened,
      fresh⟩, List.mem_cons_self⟩

theorem foldl_visit_grown {base : Frontier D V} (visits : List V)
    (structural : Structural dist breadth property frontier)
    (listed : ∀ node, property node → node ∈ nodes) (wide : nodes.length ≤ breadth)
    (grown : Grown base frontier) (holds : ∀ node ∈ visits, property node) :
    Grown base (visits.foldl (visit dist breadth) frontier) ∧
      (∀ node ∈ frontier.visited, node ∈ (visits.foldl (visit dist breadth) frontier).visited) ∧
      ∀ node ∈ visits, node ∈ (visits.foldl (visit dist breadth) frontier).visited := by
  induction visits generalizing frontier with
  | nil => exact ⟨grown, fun _ member => member, fun _ none => absurd none List.not_mem_nil⟩
  | cons head tail ih =>
      have here := holds head List.mem_cons_self
      obtain ⟨next, headSeen⟩ := visit_grown structural listed wide grown here
      have after := visit_structural structural head here
      obtain ⟨whole, stays, tailSeen⟩ := ih after next
        (fun node member => holds node (List.mem_cons_of_mem _ member))
      have step : ∀ node ∈ frontier.visited, node ∈ (visit dist breadth frontier head).visited := by
        intro node member
        rcases visit_cases dist breadth frontier head with
          ⟨_, same⟩ | ⟨_, _, same⟩ | ⟨_, _, same⟩
        · rw [same]
          exact member
        · rw [same]
          exact List.mem_cons_of_mem _ member
        · rw [same]
          exact List.mem_cons_of_mem _ member
      refine ⟨whole, fun node member => stays node (step node member), ?_⟩
      intro node member
      rcases List.mem_cons.mp member with same | later
      · rw [same]
        exact stays head headSeen
      · exact tailSeen node later

theorem expand_exhaustive {nearest : D × V} {rest : List (D × V)}
    (structural : Structural dist breadth property frontier)
    (closed : ∀ node, property node → ∀ next ∈ neighbors node, property next)
    (listed : ∀ node, property node → node ∈ nodes) (wide : nodes.length ≤ breadth)
    (exhaustive : Exhaustive neighbors frontier) (candidates : frontier.candidates = nearest :: rest) :
    Exhaustive neighbors ((neighbors nearest.2).foldl (visit dist breadth)
        { frontier with candidates := rest }) ∧
      ∀ node ∈ frontier.visited, node ∈ ((neighbors nearest.2).foldl (visit dist breadth)
        { frontier with candidates := rest }).visited := by
  have known := structural.head_reached candidates
  have base : Grown { frontier with candidates := rest } { frontier with candidates := rest } :=
    ⟨exhaustive.kept, fun _ member => member, fun _ member => member,
      fun _ member => Or.inl member⟩
  obtain ⟨grown, stays, all⟩ := foldl_visit_grown (neighbors nearest.2)
    (pop_structural structural candidates) listed wide base (closed nearest.2 known)
  refine ⟨⟨grown.kept, ?_⟩, stays⟩
  intro node member
  rcases grown.fresh node member with before | candidate
  · rcases exhaustive.expanded node before with open_ | done
    · rw [candidates, List.map_cons] at open_
      rcases List.mem_cons.mp open_ with same | later
      · right
        rw [same]
        exact all
      · exact Or.inl (grown.opened node later)
    · exact Or.inr (fun next edge => grown.seen next (done next edge))
  · exact Or.inl candidate

/-- With room for every node, an exploration returns exactly the nodes connected
to its entry. -/
theorem explore_complete (dist : V → D) (neighbors : V → List V) (breadth : Nat) (nodes : List V)
    (entry : V) (fuel : Nat) (listed : ∀ node, Connected neighbors entry node → node ∈ nodes)
    (wide : nodes.length ≤ breadth) (enough : nodes.length < fuel) :
    ∃ final, explore dist neighbors breadth fuel (start dist entry) = some final ∧
      Structural dist breadth (Connected neighbors entry) final ∧
      ∀ node, Connected neighbors entry node → node ∈ final.result.map Prod.snd := by
  have here : entry ∈ nodes := listed entry Relation.ReflTransGen.refl
  have some_ : 1 ≤ nodes.length := List.length_pos_of_mem here
  have closed : ∀ node, Connected neighbors entry node →
      ∀ next ∈ neighbors node, Connected neighbors entry next :=
    fun node reached next edge => reached.tail edge
  have structural := start_structural dist breadth entry
    (show Connected neighbors entry entry from Relation.ReflTransGen.refl) (some_.trans wide)
  have begins : Exhaustive neighbors (start dist entry) ∧
      entry ∈ (start dist entry).visited := by
    have own : ∀ node ∈ (start dist entry).visited,
        node ∈ (start dist entry).result.map Prod.snd := fun node member => member
    exact ⟨⟨own, fun node member => Or.inl (own node member)⟩, List.mem_cons_self⟩
  have pending := start_pending_le dist nodes entry here
  obtain ⟨final, explored, reached, ⟨exhaustive, entered⟩, exit_⟩ := explore_induction dist neighbors
    breadth nodes (fun now => Exhaustive neighbors now ∧ entry ∈ now.visited) closed listed
    (fun now nearest rest held invariant candidates _ => by
      obtain ⟨all, stays⟩ := expand_exhaustive held closed listed wide invariant.1 candidates
      exact ⟨all, stays entry invariant.2⟩)
    fuel (start dist entry) structural begins (by omega)
  refine ⟨final, explored, reached, ?_⟩
  rcases exit_ with none | ⟨nearest, rest, _, full⟩
  · intro node path
    apply exhaustive.kept
    induction path with
    | refl => exact entered
    | tail _ edge ih =>
        rcases exhaustive.expanded _ ih with open_ | done
        · rw [none] at open_
          cases open_
        · exact done _ edge
  · -- A full result holds as many nodes as there are.
    have long : breadth ≤ final.result.length := by
      simp only [settled] at full
      split at full
      · simp only [Bool.and_eq_true, decide_eq_true_eq] at full
        exact full.2
      · cases full
    have inside : ∀ node ∈ final.result.map Prod.snd, node ∈ nodes := by
      intro node member
      obtain ⟨item, held, same⟩ := List.mem_map.mp member
      rw [← same]
      exact listed _ (reached.reached _ (reached.resultItems item held).2)
    have all : (final.result.map Prod.snd).Perm nodes := by
      apply (List.subperm_of_subset reached.resultNodup inside).perm_of_length_le
      rw [List.length_map]
      exact wide.trans long
    intro node path
    exact all.mem_iff.mpr (listed node path)

end Exhaustive

end VectorVault.BestFirst
