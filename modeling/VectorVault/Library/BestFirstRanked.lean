import VectorVault.Library.BestFirst

/-! Best-first exploration with totally ordered distances, ties among them.

What was visited and is not in the result is at least as far as all of it, and
every result was expanded before the loop stops. -/

namespace VectorVault.BestFirst

open FloatOrder

section Ranked

variable {D V : Type} [LinearOrder D] [OrderTop D] [LinearOrder V] {dist : V → D} {breadth : Nat}
  {property : V → Prop} {frontier : Frontier D V}

/-- The queues are sorted, and what is turned away or dropped is not nearer than what
is kept. -/
structure Ranked (dist : V → D) (breadth : Nat) (frontier : Frontier D V) : Prop where
  near : frontier.candidates.Pairwise (fun first second => pairLt second first = false)
  far : frontier.result.Pairwise (fun first second => pairLt first second = false)
  best : ∀ node ∈ frontier.visited, node ∈ frontier.result.map Prod.snd ∨
    breadth ≤ frontier.result.length ∧ ∀ item ∈ frontier.result, item.1 ≤ dist node

theorem pairLt_eq_false_iff (first second : D × V) :
    pairLt first second = false ↔ toLex second ≤ toLex first := by
  rw [Bool.eq_false_iff, ne_eq, pairLt_iff, not_lt]

theorem fst_le_of_not_pairLt {first second : D × V} (atLeast : pairLt first second = false) :
    second.1 ≤ first.1 := by
  rw [pairLt_eq_false_iff, Prod.Lex.toLex_le_toLex] at atLeast
  rcases atLeast with less | ⟨same, _⟩
  · exact less.le
  · exact same.le

theorem pushNear_pairwise (item : D × V) {heap : List (D × V)}
    (sorted : heap.Pairwise (fun first second => pairLt second first = false)) :
    (pushNear item heap).Pairwise (fun first second => pairLt second first = false) := by
  have total : Std.Total (fun first second : D × V => pairLt second first = false) :=
    ⟨fun first second => by simp only [pairLt_eq_false_iff]; exact le_total _ _⟩
  have transitive : IsTrans (D × V) (fun first second => pairLt second first = false) :=
    ⟨fun first second third low high => by
      simp only [pairLt_eq_false_iff] at low high ⊢
      exact low.trans high⟩
  exact List.Pairwise.orderedInsert item heap sorted

theorem pushFar_pairwise (item : D × V) {heap : List (D × V)}
    (sorted : heap.Pairwise (fun first second => pairLt first second = false)) :
    (pushFar item heap).Pairwise (fun first second => pairLt first second = false) := by
  have total : Std.Total (fun first second : D × V => pairLt first second = false) :=
    ⟨fun first second => by simp only [pairLt_eq_false_iff]; exact le_total _ _⟩
  have transitive : IsTrans (D × V) (fun first second => pairLt first second = false) :=
    ⟨fun first second third low high => by
      simp only [pairLt_eq_false_iff] at low high ⊢
      exact high.trans low⟩
  exact List.Pairwise.orderedInsert item heap sorted

theorem head_farthest {worst : D × V} {rest : List (D × V)}
    (sorted : (worst :: rest).Pairwise (fun first second => pairLt first second = false)) :
    ∀ item ∈ worst :: rest, item.1 ≤ worst.1 := by
  intro item member
  rcases List.mem_cons.mp member with same | later
  · rw [same]
  · exact fst_le_of_not_pairLt ((List.pairwise_cons.mp sorted).1 item later)

theorem start_ranked (dist : V → D) (breadth : Nat) (entry : V) :
    Ranked dist breadth (start dist entry) := by
  constructor
  · exact List.pairwise_singleton _ _
  · exact List.pairwise_singleton _ _
  · intro node member
    exact Or.inl member

theorem keep_length_ge (breadth : Nat) (item : D × V) (result : List (D × V)) :
    result.length ≤ (keep breadth item result).length := by
  have grown := (pushFar_perm item result).length_eq
  rw [List.length_cons] at grown
  unfold keep
  split
  · rw [List.length_tail]
    omega
  · omega

variable (breadth) in
theorem keep_best {new : D × V} {result : List (D × V)}
    (far : result.Pairwise (fun first second => pairLt first second = false)) {item : D × V}
    (member : item ∈ new :: result) :
    item ∈ keep breadth new result ∨ breadth ≤ (keep breadth new result).length ∧
      ∀ kept ∈ keep breadth new result, kept.1 ≤ item.1 := by
  have pushed := pushFar_perm new result
  have there := pushed.mem_iff.mpr member
  by_cases drops : (pushFar new result).length > breadth
  · have dropped : keep breadth new result = (pushFar new result).tail := if_pos drops
    have headFar := pushFar_pairwise new far
    rw [dropped]
    obtain ⟨head, tail, shape⟩ := List.exists_cons_of_length_pos
      (show 0 < (pushFar new result).length by omega)
    rw [shape] at there drops headFar
    rw [shape, List.tail_cons]
    rcases List.mem_cons.mp there with isHead | kept
    · right
      rw [List.length_cons] at drops
      refine ⟨by omega, ?_⟩
      intro other inside
      rw [isHead]
      exact head_farthest headFar other (List.mem_cons_of_mem head inside)
    · exact Or.inl kept
  · have all : keep breadth new result = pushFar new result := if_neg drops
    rw [all]
    exact Or.inl there

theorem visit_ranked (structural : Structural dist breadth property frontier)
    (ranked : Ranked dist breadth frontier) (node : V) :
    Ranked dist breadth (visit dist breadth frontier node) := by
  obtain ⟨worst, rest, shape⟩ := List.exists_cons_of_length_pos structural.resultSome
  have head : frontier.result.head? = some worst := by
    rw [shape]
    rfl
  have farthest : ∀ item ∈ frontier.result, item.1 ≤ worst.1 := by
    have far := ranked.far
    rw [shape] at far ⊢
    exact head_farthest far
  have worstIn : worst ∈ frontier.result := by
    rw [shape]
    exact List.mem_cons_self
  rcases visit_cases dist breadth frontier node with
    ⟨_, same⟩ | ⟨unseen, accepted, same⟩ | ⟨unseen, refused, same⟩
  · rw [same]
    exact ranked
  · have placed : ∀ item ∈ (dist node, node) :: frontier.result, item.1 = dist item.2 →
        item.2 ∈ (keep breadth (dist node, node) frontier.result).map Prod.snd ∨
          breadth ≤ (keep breadth (dist node, node) frontier.result).length ∧
            ∀ kept ∈ keep breadth (dist node, node) frontier.result, kept.1 ≤ dist item.2 := by
      intro item member own
      rw [← own]
      rcases keep_best breadth ranked.far member with kept | dropped
      · exact Or.inl (List.mem_map_of_mem kept)
      · exact Or.inr dropped
    rw [same]
    constructor
    · exact pushNear_pairwise _ ranked.near
    · unfold keep
      split
      · exact (pushFar_pairwise _ ranked.far).tail
      · exact pushFar_pairwise _ ranked.far
    · intro other member
      rcases List.mem_cons.mp member with new | old
      · rw [new]
        exact placed (dist node, node) List.mem_cons_self rfl
      · rcases ranked.best other old with kept | ⟨full, nearer⟩
        · obtain ⟨item, held, isOther⟩ := List.mem_map.mp kept
          rw [← isOther]
          exact placed item (List.mem_cons_of_mem _ held) (structural.resultItems item held).1
        · -- The new item is nearer than the worst one, so all of them stay nearer.
          have new : dist node < worst.1 := by
            have crowded : ¬ frontier.result.length < breadth := not_lt.mpr full
            simpa [accepts, crowded, head] using accepted
          right
          refine ⟨full.trans (keep_length_ge breadth _ _), fun item inside => ?_⟩
          rcases List.mem_cons.mp ((keep_subperm breadth _ _).subset inside) with isNew | isOld
          · rw [isNew]
            exact new.le.trans (nearer worst worstIn)
          · exact nearer item isOld
  · have full : breadth ≤ frontier.result.length := by
      by_contra room
      simp [accepts, not_le.mp room] at refused
    have farther : worst.1 ≤ dist node := by
      simpa [accepts, not_lt.mpr full, head] using refused
    rw [same]
    refine ⟨ranked.near, ranked.far, fun other member => ?_⟩
    rcases List.mem_cons.mp member with new | old
    · right
      rw [new]
      exact ⟨full, fun item inside => (farthest item inside).trans farther⟩
    · exact ranked.best other old

theorem foldl_visit_ranked (nodes : List V)
    (structural : Structural dist breadth property frontier) (ranked : Ranked dist breadth frontier)
    (holds : ∀ node ∈ nodes, property node) :
    Ranked dist breadth (nodes.foldl (visit dist breadth) frontier) := by
  induction nodes generalizing frontier with
  | nil => exact ranked
  | cons head tail ih =>
      have here := holds head List.mem_cons_self
      exact ih (visit_structural structural head here) (visit_ranked structural ranked head)
        (fun node member => holds node (List.mem_cons_of_mem _ member))

theorem pop_ranked {nearest : D × V} {rest : List (D × V)} (ranked : Ranked dist breadth frontier)
    (candidates : frontier.candidates = nearest :: rest) :
    Ranked dist breadth { frontier with candidates := rest } := by
  have near := ranked.near
  rw [candidates] at near
  exact ⟨(List.pairwise_cons.mp near).2, ranked.far, ranked.best⟩

end Ranked

section Extends

variable {D V : Type} [FloatOrder D] [LinearOrder V] {dist : V → D} {breadth : Nat}
  {base frontier : Frontier D V}

structure Extends (base frontier : Frontier D V) : Prop where
  seen : ∀ node ∈ base.visited, node ∈ frontier.visited
  kept : ∀ node ∈ base.candidates.map Prod.snd, node ∈ frontier.candidates.map Prod.snd
  opened : ∀ node ∈ frontier.candidates.map Prod.snd,
    node ∈ base.candidates.map Prod.snd ∨ node ∉ base.visited
  result : ∀ node ∈ frontier.result.map Prod.snd, node ∈ base.result.map Prod.snd ∨
    node ∉ base.visited ∧ node ∈ frontier.candidates.map Prod.snd

omit [FloatOrder D] [LinearOrder V] in
theorem Extends.refl (frontier : Frontier D V) : Extends frontier frontier :=
  ⟨fun _ member => member, fun _ member => member, fun _ => Or.inl, fun _ => Or.inl⟩

omit [FloatOrder D] [LinearOrder V] in
theorem Extends.stays (grown : Extends base frontier) {node : V} (seen : node ∈ base.visited) :
    node ∈ frontier.candidates.map Prod.snd ↔ node ∈ base.candidates.map Prod.snd := by
  constructor
  · intro open_
    exact (grown.opened node open_).resolve_right (fun new => new seen)
  · exact grown.kept node

theorem visit_extends (extends_ : Extends base frontier) (node : V) :
    Extends base (visit dist breadth frontier node) := by
  rcases visit_cases dist breadth frontier node with
    ⟨_, same⟩ | ⟨unseen, _, same⟩ | ⟨_, _, same⟩
  · rw [same]
    exact extends_
  · have near := (pushNear_perm (dist node, node) frontier.candidates).map Prod.snd
    have new : node ∉ base.visited := fun member => unseen (extends_.seen node member)
    rw [same]
    constructor
    · exact fun other member => List.mem_cons_of_mem _ (extends_.seen other member)
    · exact fun other member => near.mem_iff.mpr (List.mem_cons_of_mem _ (extends_.kept other member))
    · intro other member
      rcases List.mem_cons.mp (near.mem_iff.mp member) with isNew | old
      · right
        rw [isNew]
        exact new
      · exact extends_.opened other old
    · intro other member
      obtain ⟨item, held, isOther⟩ := List.mem_map.mp member
      rcases List.mem_cons.mp ((keep_subperm breadth _ _).subset held) with isNew | old
      · right
        rw [← isOther, isNew]
        exact ⟨new, near.mem_iff.mpr List.mem_cons_self⟩
      · rcases extends_.result other (List.mem_map.mpr ⟨item, old, isOther⟩) with before | later
        · exact Or.inl before
        · exact Or.inr ⟨later.1, near.mem_iff.mpr (List.mem_cons_of_mem _ later.2)⟩
  · rw [same]
    exact ⟨fun other member => List.mem_cons_of_mem _ (extends_.seen other member),
      extends_.kept, extends_.opened, extends_.result⟩

theorem foldl_visit_extends (dist : V → D) (breadth : Nat) (nodes : List V)
    (extends_ : Extends base frontier) :
    Extends base (nodes.foldl (visit dist breadth) frontier) := by
  induction nodes generalizing frontier with
  | nil => exact extends_
  | cons head tail ih => exact ih (visit_extends extends_ head)

theorem mem_foldl_visited (dist : V → D) (breadth : Nat) (nodes : List V) (node : V) :
    node ∈ (nodes.foldl (visit dist breadth) frontier).visited ↔
      node ∈ frontier.visited ∨ node ∈ nodes := by
  induction nodes generalizing frontier with
  | nil => simp
  | cons head tail ih =>
      have visited : node ∈ (visit dist breadth frontier head).visited ↔
          node ∈ frontier.visited ∨ node = head := by
        rcases visit_cases dist breadth frontier head with
          ⟨seen, same⟩ | ⟨_, _, same⟩ | ⟨_, _, same⟩
        · rw [same]
          constructor
          · exact Or.inl
          · rintro (old | new)
            · exact old
            · rw [new]
              exact seen
        · rw [same, List.mem_cons, or_comm]
        · rw [same, List.mem_cons, or_comm]
      rw [List.foldl_cons, ih, visited, List.mem_cons, or_assoc]

end Extends

section Local

variable {D V : Type} [LinearOrder D] [OrderTop D] [LinearOrder V] {dist : V → D}
  {neighbors : V → List V} {breadth : Nat} {property : V → Prop} {nodes : List V}
  {frontier : Frontier D V}

/-- A result that is no candidate any more has had its neighbours visited. -/
def Expanded (neighbors : V → List V) (frontier : Frontier D V) : Prop :=
  ∀ node ∈ frontier.result.map Prod.snd, node ∈ frontier.candidates.map Prod.snd ∨
    ∀ next ∈ neighbors node, next ∈ frontier.visited

theorem expand_expanded (expanded : Expanded neighbors frontier)
    {nearest : D × V} {rest : List (D × V)} (candidates : frontier.candidates = nearest :: rest) :
    Expanded neighbors ((neighbors nearest.2).foldl (visit dist breadth)
      { frontier with candidates := rest }) := by
  have grown := foldl_visit_extends dist breadth (neighbors nearest.2)
    (Extends.refl { frontier with candidates := rest })
  intro node member
  rcases grown.result node member with before | new
  · rcases expanded node before with open_ | done
    · rw [candidates, List.map_cons] at open_
      rcases List.mem_cons.mp open_ with same | later
      · right
        intro next edge
        rw [mem_foldl_visited, ← same]
        exact Or.inr edge
      · exact Or.inl (grown.kept node later)
    · exact Or.inr (fun next edge => grown.seen next (done next edge))
  · exact Or.inl new.2

theorem settled_expanded (structural : Structural dist breadth property frontier)
    (ranked : Ranked dist breadth frontier) (expanded : Expanded neighbors frontier)
    {nearest : D × V} {rest : List (D × V)} (candidates : frontier.candidates = nearest :: rest)
    (stop : settled breadth frontier.result nearest = true) :
    ∀ node ∈ frontier.result.map Prod.snd, ∀ next ∈ neighbors node, next ∈ frontier.visited := by
  obtain ⟨worst, others, shape⟩ := List.exists_cons_of_length_pos structural.resultSome
  have beyond : worst.1 < nearest.1 := by
    simp only [settled, shape, List.head?_cons, Bool.and_eq_true, lt_iff] at stop
    exact stop.1
  intro node member
  apply (expanded node member).resolve_left
  intro open_
  obtain ⟨item, held, isNode⟩ := List.mem_map.mp member
  obtain ⟨candidate, waiting, isOpen⟩ := List.mem_map.mp open_
  have atMost : item.1 ≤ worst.1 := by
    have far := ranked.far
    rw [shape] at far held
    exact head_farthest far item held
  have atLeast : nearest.1 ≤ candidate.1 := by
    have near := ranked.near
    rw [candidates] at near waiting
    rcases List.mem_cons.mp waiting with first | later
    · rw [first]
    · exact fst_le_of_not_pairLt ((List.pairwise_cons.mp near).1 candidate later)
  have same : item.1 = candidate.1 := by
    rw [(structural.resultItems item held).1, (structural.candidateItems candidate waiting).1,
      isNode, isOpen]
  rw [same] at atMost
  exact absurd (atLeast.trans atMost) (not_le.mpr beyond)

/-- What an exploration returns: every neighbour of a result is a result too, or there
are `breadth` results and none of them is farther. -/
structure LocallyComplete (dist : V → D) (neighbors : V → List V) (breadth : Nat) (entry : V)
    (result : List (D × V)) : Prop where
  items : ∀ item ∈ result, item.1 = dist item.2 ∧ Connected neighbors entry item.2
  distinct : (result.map Prod.snd).Nodup
  bound : result.length ≤ breadth
  ascending : result.Pairwise (fun first second => toLex first < toLex second)
  complete : ∀ node, node = entry ∨ (∃ from_ ∈ result.map Prod.snd, node ∈ neighbors from_) →
    node ∈ result.map Prod.snd ∨
      result.length = breadth ∧ ∀ item ∈ result, item.1 ≤ dist node

theorem explore_local (dist : V → D) (neighbors : V → List V) (breadth : Nat) (nodes : List V)
    (entry : V) (fuel : Nat) (listed : ∀ node, Connected neighbors entry node → node ∈ nodes)
    (positive : 1 ≤ breadth) (enough : nodes.length < fuel) :
    ∃ final, explore dist neighbors breadth fuel (start dist entry) = some final ∧
      LocallyComplete dist neighbors breadth entry final.result.reverse := by
  have closed : ∀ node, Connected neighbors entry node →
      ∀ next ∈ neighbors node, Connected neighbors entry next :=
    fun node reached next edge => reached.tail edge
  have structural := start_structural dist breadth entry
    (show Connected neighbors entry entry from Relation.ReflTransGen.refl) positive
  have begins : Ranked dist breadth (start dist entry) ∧ Expanded neighbors (start dist entry) ∧
      entry ∈ (start dist entry).visited :=
    ⟨start_ranked dist breadth entry, fun node member => Or.inl member, List.mem_cons_self⟩
  have pending := start_pending_le dist nodes entry (listed entry Relation.ReflTransGen.refl)
  obtain ⟨final, explored, reached, ⟨ranked, expanded, entered⟩, exit_⟩ := explore_induction dist
    neighbors breadth nodes
    (fun now => Ranked dist breadth now ∧ Expanded neighbors now ∧ entry ∈ now.visited) closed listed
    (fun now nearest rest held invariant candidates _ => by
      have known : Connected neighbors entry nearest.2 := by
        apply held.reached _ (held.candidateItems nearest _).2
        rw [candidates]
        exact List.mem_cons_self
      refine ⟨foldl_visit_ranked _ (pop_structural held candidates)
        (pop_ranked invariant.1 candidates) (closed nearest.2 known),
        expand_expanded invariant.2.1 candidates, ?_⟩
      rw [mem_foldl_visited]
      exact Or.inl invariant.2.2)
    fuel (start dist entry) structural begins (by omega)
  have visited : ∀ node ∈ final.result.map Prod.snd, ∀ next ∈ neighbors node,
      next ∈ final.visited := by
    rcases exit_ with none | ⟨nearest, rest, candidates, stop⟩
    · intro node member
      apply (expanded node member).resolve_left
      rw [none]
      exact List.not_mem_nil
    · exact settled_expanded reached ranked expanded candidates stop
  refine ⟨final, explored, ?_⟩
  constructor
  · intro item member
    obtain ⟨own, seen⟩ := reached.resultItems item (List.mem_reverse.mp member)
    exact ⟨own, reached.reached _ seen⟩
  · rw [List.map_reverse, List.nodup_reverse]
    exact reached.resultNodup
  · rw [List.length_reverse]
    exact reached.resultBound
  · have apart : final.result.Pairwise (fun first second => first.2 ≠ second.2) :=
      List.pairwise_map.mp reached.resultNodup
    rw [List.pairwise_reverse]
    apply (ranked.far.and apart).imp
    intro first second both
    rw [pairLt_eq_false_iff] at both
    apply lt_of_le_of_ne both.1
    intro same
    exact both.2 (congrArg Prod.snd (toLex.injective same)).symm
  · intro node either
    have seen : node ∈ final.visited := by
      rcases either with isEntry | ⟨from_, member, edge⟩
      · rw [isEntry]
        exact entered
      · rw [List.map_reverse, List.mem_reverse] at member
        exact visited from_ member node edge
    have bound := reached.resultBound
    rw [List.map_reverse, List.mem_reverse, List.length_reverse]
    rcases ranked.best node seen with kept | ⟨full, nearer⟩
    · exact Or.inl kept
    · exact Or.inr ⟨le_antisymm bound full,
        fun item member => nearer item (List.mem_reverse.mp member)⟩

omit [OrderTop D] in
theorem LocallyComplete.all {entry : V} {result : List (D × V)}
    (found : LocallyComplete dist neighbors breadth entry result) (reach : Finset V)
    (reachable : ∀ node, node ∈ reach ↔ Connected neighbors entry node)
    (room : reach.card ≤ breadth) (node : V) :
    node ∈ result.map Prod.snd ↔ Connected neighbors entry node := by
  have inside : (result.map Prod.snd).toFinset ⊆ reach := by
    intro other member
    obtain ⟨item, held, same⟩ := List.mem_map.mp (List.mem_toFinset.mp member)
    rw [reachable, ← same]
    exact (found.items item held).2
  have size : (result.map Prod.snd).toFinset.card = result.length := by
    rw [List.toFinset_card_of_nodup found.distinct, List.length_map]
  -- A full result leaves no node of the reach out.
  have kept : ∀ other, Connected neighbors entry other →
      (other = entry ∨ ∃ from_ ∈ result.map Prod.snd, other ∈ neighbors from_) →
      other ∈ result.map Prod.snd := by
    intro other connected either
    rcases found.complete other either with member | ⟨full, _⟩
    · exact member
    · have same := Finset.eq_of_subset_of_card_le inside (by rw [size, full]; exact room)
      rw [← List.mem_toFinset, same, reachable]
      exact connected
  constructor
  · intro member
    rw [← reachable]
    exact inside (List.mem_toFinset.mpr member)
  · intro connected
    induction connected with
    | refl => exact kept entry Relation.ReflTransGen.refl (Or.inl rfl)
    | @tail from_ next path edge ih => exact kept next (path.tail edge) (Or.inr ⟨from_, ih, edge⟩)

end Local

end VectorVault.BestFirst
