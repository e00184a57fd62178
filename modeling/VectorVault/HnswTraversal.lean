import VectorVault.Hnsw

/-! Traversals of an index whose edges stay on their layer.

On such an index no access misses, both loops come to their exit, and the
checked functions compute the library's greedy descent and best-first search. -/

namespace VectorVault.HnswIndex

open FloatOrder BestFirst GreedyDescent DiverseSelection

section Access

theorem access_eq {A : Type} {items : List A} {position : Nat} {item : A}
    (held : items[position]? = some item) : access items position = .ok item := by
  simp [access, held]

end Access

/-- The edges of a node on a layer, none where there is no such list. -/
def linked (index : HnswIndex) (layer node : Nat) : List Nat :=
  match index.nodes[node]? with
  | some held => held.neighbors[layer]?.getD []
  | none => []

def OnLayer (index : HnswIndex) (layer node : Nat) : Prop :=
  ∃ held, index.nodes[node]? = some held ∧ layer < held.neighbors.length

def EdgesOnLayer (index : HnswIndex) : Prop :=
  ∀ layer node, ∀ next ∈ index.linked layer node, index.OnLayer layer next

/-- A class of nodes of one layer that its edges do not leave. -/
def Closed (index : HnswIndex) (layer : Nat) (property : Nat → Prop) : Prop :=
  ∀ node, property node → index.OnLayer layer node ∧
    ∀ next ∈ index.linked layer node, property next

variable {index : HnswIndex} {layer node : Nat}

theorem OnLayer.valid (there : index.OnLayer layer node) : node < index.nodes.length := by
  obtain ⟨held, found, _⟩ := there
  exact (List.getElem?_eq_some_iff.mp found).1

theorem OnLayer.below {lower : Nat} (there : index.OnLayer layer node) (below : lower ≤ layer) :
    index.OnLayer lower node := by
  obtain ⟨held, found, long⟩ := there
  exact ⟨held, found, by omega⟩

theorem EdgesOnLayer.closed (edges : index.EdgesOnLayer) (layer : Nat) :
    index.Closed layer (index.OnLayer layer) :=
  fun node there => ⟨there, edges layer node⟩

theorem adjacency_eq (there : index.OnLayer layer node) :
    index.adjacency node layer = .ok (index.linked layer node) := by
  obtain ⟨held, found, long⟩ := there
  have list : held.neighbors[layer]? = some held.neighbors[layer] :=
    List.getElem?_eq_getElem long
  have result : index.linked layer node = held.neighbors[layer] := by
    simp only [linked, found, list, Option.getD_some]
  rw [result, adjacency, access_eq found]
  exact access_eq list

section Distances

variable {D : Type} [FloatOrder D] (host : Host D)

def score (index : HnswIndex) (q : List F32) (node : Nat) : D :=
  match index.nodes[node]? with
  | some held => host.distanceOr index.metric q held.vector
  | none => infinity

def apart (index : HnswIndex) (a b : Nat) : D :=
  match index.nodes[a]? with
  | some held => index.score host held.vector b
  | none => infinity

theorem distanceTo_eq (q : List F32) (valid : node < index.nodes.length) :
    index.distanceTo host q node = .ok (index.score host q node) := by
  have found := List.getElem?_eq_getElem valid
  rw [distanceTo, access_eq found, score, found]
  rfl

theorem nodeDistance_eq {a b : Nat} (validA : a < index.nodes.length)
    (validB : b < index.nodes.length) :
    index.nodeDistance host a b = .ok (index.apart host a b) := by
  have found := List.getElem?_eq_getElem validA
  rw [nodeDistance, access_eq found, apart, found]
  exact distanceTo_eq host _ validB

end Distances

section Selection

variable {D : Type} [FloatOrder D] (host : Host D)

theorem farFromSelected_eq (cand : D × Nat) (selected : List Nat)
    (valid : cand.2 < index.nodes.length) (known : ∀ other ∈ selected, other < index.nodes.length) :
    index.farFromSelected host cand selected =
      .ok (diverse (index.apart host) cand selected) := by
  induction selected with
  | nil => rfl
  | cons other rest ih =>
      have later := ih (fun next member => known next (List.mem_cons_of_mem _ member))
      rw [farFromSelected, nodeDistance_eq host valid (known other List.mem_cons_self)]
      simp only [diverse, List.all_cons] at later ⊢
      cases near : le (index.apart host cand.2 other) cand.1 with
      | true => simp [bind, Except.bind, near, pure, Except.pure]
      | false => simp [bind, Except.bind, near, later]

theorem selectFrom_eq (m : Nat) (candidates : List (D × Nat)) (selected : List Nat)
    (valid : ∀ cand ∈ candidates, cand.2 < index.nodes.length)
    (known : ∀ other ∈ selected, other < index.nodes.length) :
    index.selectFrom host m candidates selected =
      .ok (pick (index.apart host) m candidates selected) := by
  induction candidates generalizing selected with
  | nil => rfl
  | cons cand rest ih =>
      have here := valid cand List.mem_cons_self
      have later : ∀ other ∈ rest, other.2 < index.nodes.length :=
        fun other member => valid other (List.mem_cons_of_mem _ member)
      have decided := farFromSelected_eq host cand selected here known
      have grown : ∀ other ∈ selected ++ [cand.2], other < index.nodes.length := by
        intro other member
        rcases List.mem_append.mp member with old | new
        · exact known other old
        · rw [List.mem_singleton.mp new]
          exact here
      by_cases full : selected.length ≥ m
      · simp [selectFrom, pick, full, pure, Except.pure]
      · rw [selectFrom, decided, pick]
        simp only [if_neg full, bind, Except.bind]
        cases keep : diverse (index.apart host) cand selected with
        | true => exact ih _ later grown
        | false => exact ih _ later known

theorem selectNeighborsHeuristic_eq (m : Nat) (candidates : List (D × Nat))
    (valid : ∀ cand ∈ candidates, cand.2 < index.nodes.length) :
    index.selectNeighborsHeuristic host candidates m =
      .ok (pick (index.apart host) m (sortBy keyedLt candidates) []) := by
  apply selectFrom_eq
  · intro cand member
    exact valid cand ((mem_sortBy _ _ _).mp member)
  · intro other member
    cases member

theorem pick_subperm (near : Nat → Nat → D) (m : Nat) (candidates : List (D × Nat)) :
    (pick near m (sortBy keyedLt candidates) []).Subperm (candidates.map Prod.snd) := by
  have kept := pick_sublist near m (sortBy keyedLt candidates) []
  rw [List.nil_append] at kept
  exact kept.subperm.trans ((sortBy_perm keyedLt candidates).map Prod.snd).subperm

theorem pick_ne_nil (near : Nat → Nat → D) {m : Nat} {candidates : List (D × Nat)} (room : 1 ≤ m)
    (some_ : candidates ≠ []) : pick near m (sortBy keyedLt candidates) [] ≠ [] := by
  cases sorted : sortBy keyedLt candidates with
  | nil =>
      have lengths := length_sortBy keyedLt candidates
      rw [sorted] at lengths
      exact absurd (List.length_eq_zero_iff.mp lengths.symm) some_
  | cons nearest rest => exact List.ne_nil_of_mem (head_mem_pick near m nearest rest room)

end Selection

section Descent

variable {D : Type} [FloatOrder D] (host : Host D) (q : List F32)

theorem descendScan_eq (neighbors : List Nat) (position : Position D Nat)
    (valid : ∀ next ∈ neighbors, next < index.nodes.length) :
    index.descendScan host q neighbors position =
      .ok (neighbors.foldl (consider (index.score host q)) position) := by
  induction neighbors generalizing position with
  | nil => rfl
  | cons next rest ih =>
      rw [descendScan, distanceTo_eq host q (valid next List.mem_cons_self)]
      exact ih _ (fun other member => valid other (List.mem_cons_of_mem _ member))

variable {property : Nat → Prop}

theorem descendLoop_eq (closed : index.Closed layer property) (fuel current : Nat) (distance : D)
    (there : property current) :
    index.descendLoop host q layer fuel current distance =
      match descend (index.score host q) (index.linked layer) fuel current distance with
      | some final => .ok final
      | none => .error .diverged := by
  induction fuel generalizing current distance with
  | zero => rfl
  | succ fuel ih =>
      obtain ⟨onLayer, edges⟩ := closed current there
      have scanned : index.descendScan host q (index.linked layer current)
          ⟨current, distance, false⟩ =
          .ok (scan (index.score host q) (index.linked layer current) current distance) :=
        descendScan_eq host q _ _ (fun next member => (closed next (edges next member)).1.valid)
      rw [descendLoop, adjacency_eq onLayer, descend]
      simp only [bind, Except.bind, scanned]
      rcases scan_cases (index.score host q) (index.linked layer) current distance with
        same | ⟨next, member, moved, _⟩
      · simp only [same, Bool.false_eq_true, if_false]
        rfl
      · simp only [moved, if_true]
        exact ih next _ (edges next member)

theorem Closed.mem_range (closed : index.Closed layer property) (node : Nat)
    (there : property node) : node ∈ List.range index.nodes.length :=
  List.mem_range.mpr (closed node there).1.valid

theorem greedyDescend_spec (closed : index.Closed layer property) {entry : Nat}
    (there : property entry) :
    ∃ final, index.greedyDescend host q entry layer = .ok final ∧ property final ∧
      descend (index.score host q) (index.linked layer) (index.nodes.length + 1) entry
        (index.score host q entry) = some final := by
  have few : (closer (index.score host q) (List.range index.nodes.length)
      (index.score host q entry)).length < index.nodes.length + 1 := by
    have filtered := List.length_filter_le
      (fun node => lt (index.score host q node) (index.score host q entry))
      (List.range index.nodes.length)
    rw [List.length_range] at filtered
    exact Nat.lt_succ_of_le filtered
  obtain ⟨final, found, arrived⟩ := descend_closed (index.score host q) (index.linked layer)
    property (List.range index.nodes.length) (fun node held => (closed node held).2)
    closed.mem_range _ entry _ there few
  have computed : index.greedyDescend host q entry layer = .ok final := by
    rw [greedyDescend, distanceTo_eq host q (closed entry there).1.valid]
    exact (descendLoop_eq host q closed _ _ _ there).trans (by rw [found])
  exact ⟨final, computed, arrived, found⟩

theorem descendLayers_spec {property : Nat → Nat → Prop}
    (closed : ∀ layer, index.Closed layer (property layer))
    (below : ∀ layer lower node, property layer node → lower ≤ layer → property lower node)
    (floor steps current : Nat) (there : property (floor + steps) current) :
    ∃ final, index.descendLayers host q floor steps current = .ok final ∧
      property floor final := by
  induction steps generalizing current with
  | zero => exact ⟨current, rfl, there⟩
  | succ steps ih =>
      obtain ⟨next, computed, arrived, _⟩ := greedyDescend_spec host q (closed _) there
      obtain ⟨final, rest, last⟩ := ih next (below _ _ next arrived (by omega))
      have unfolded : index.descendLayers host q floor (steps + 1) current = .ok final := by
        rw [descendLayers, computed]
        exact rest
      exact ⟨final, unfolded, last⟩

end Descent

section Search

variable {D : Type} [FloatOrder D] (host : Host D) (q : List F32)

theorem visitNeighbors_eq (ef : Nat) (neighbors : List Nat) (frontier : Frontier D Nat)
    (valid : ∀ next ∈ neighbors, next < index.nodes.length) :
    index.visitNeighbors host q ef neighbors frontier =
      .ok (neighbors.foldl (visit (index.score host q) ef) frontier) := by
  induction neighbors generalizing frontier with
  | nil => rfl
  | cons next rest ih =>
      have later : ∀ other ∈ rest, other < index.nodes.length :=
        fun other member => valid other (List.mem_cons_of_mem _ member)
      rw [visitNeighbors, List.foldl_cons, visit]
      by_cases seen : next ∈ frontier.visited
      · simp only [if_pos seen]
        exact ih _ later
      · simp only [if_neg seen]
        rw [distanceTo_eq host q (valid next List.mem_cons_self)]
        exact ih _ later

variable {property : Nat → Prop}

theorem exploreLoop_eq (closed : index.Closed layer property) (ef fuel : Nat)
    (frontier : Frontier D Nat)
    (structural : Structural (index.score host q) ef property frontier) :
    index.exploreLoop host q ef layer fuel frontier =
      match explore (index.score host q) (index.linked layer) ef fuel frontier with
      | some final => .ok final
      | none => .error .diverged := by
  induction fuel generalizing frontier with
  | zero => rfl
  | succ fuel ih =>
      rw [exploreLoop, explore]
      cases candidates : frontier.candidates with
      | nil => rfl
      | cons nearest rest =>
          have popped := pop_structural structural candidates
          have known := structural.head_reached candidates
          obtain ⟨onLayer, edges⟩ := closed nearest.2 known
          cases stop : settled ef frontier.result nearest with
          | true =>
              simp only [stop, if_true]
              rfl
          | false =>
              simp only [stop, Bool.false_eq_true, if_false]
              rw [adjacency_eq onLayer]
              simp only [bind, Except.bind]
              rw [visitNeighbors_eq host q ef _ _
                (fun next member => (closed next (edges next member)).1.valid)]
              exact ih _ (foldl_visit_structural (index.linked layer nearest.2) popped edges)

theorem searchLayer_spec (closed : index.Closed layer property) {entry ef : Nat}
    (there : property entry) (positive : 1 ≤ ef) :
    ∃ final, index.searchLayer host q [entry] ef layer = .ok final.result.reverse ∧
      Structural (index.score host q) ef property final ∧
      explore (index.score host q) (index.linked layer) ef (index.nodes.length + 2)
        (start (index.score host q) entry) = some final := by
  have structural := start_structural (index.score host q) ef entry there positive
  have few : pending (List.range index.nodes.length) (start (index.score host q) entry) <
      index.nodes.length + 2 := by
    have atMost := start_pending_le (index.score host q) (List.range index.nodes.length) entry
      (closed.mem_range entry there)
    rw [List.length_range] at atMost
    omega
  obtain ⟨final, found, arrived, _⟩ := explore_induction (index.score host q) (index.linked layer)
    ef (List.range index.nodes.length) (fun _ => True) (fun node held => (closed node held).2)
    closed.mem_range (fun _ _ _ _ _ _ _ => trivial) _ _ structural trivial few
  have computed : index.searchLayer host q [entry] ef layer = .ok final.result.reverse := by
    have seeded : index.seedFrontier host q [entry] ⟨[], [], []⟩ =
        .ok (start (index.score host q) entry) := by
      rw [seedFrontier, distanceTo_eq host q (closed entry there).1.valid]
      rfl
    have trimmed : { start (index.score host q) entry with
        result := (start (index.score host q) entry).result.drop
          ((start (index.score host q) entry).result.length - ef) } =
        start (index.score host q) entry := by
      have none : 1 - ef = 0 := by omega
      simp [start, none]
    rw [searchLayer, seeded]
    simp only [bind, Except.bind, List.length_singleton]
    rw [trimmed, exploreLoop_eq host q closed ef _ _ structural, found]
    rfl
  exact ⟨final, computed, arrived, found⟩

end Search

end VectorVault.HnswIndex
