import VectorVault.IndexMembership

/-! What the partitioning of an inverted-file index depends on.

Means do not depend on the order of the members here. Started from the same
centroids, k-means sends the same vectors to the same cells in whatever order
the live entries stand, and a search returns the same candidates. -/

namespace VectorVault.IvfIndex

open FloatOrder

section KMeans

variable {D : Type} [FloatOrder D] (host : Host D)

/-- Exact arithmetic: a mean does not depend on the order of the members. -/
def OrderFree : Prop :=
  ∀ first second : List (List F32), first.Perm second → host.mean first = host.mean second

def cellOf (centroids : List (List F32)) (vec : List F32) : Nat :=
  nearestCell host vec centroids 0 (infinity, 0)

theorem members_map (vectors : List (List F32)) (cells : List F32 → Nat) (cell : Nat) :
    members vectors (vectors.map cells) cell = vectors.filter (fun vec => cells vec = cell) := by
  unfold members
  induction vectors with
  | nil => rfl
  | cons vec rest ih =>
      rw [List.map_cons, List.zip_cons_cons, List.filterMap_cons, List.filter_cons, ih]
      by_cases here : cells vec = cell
      · simp only [here, if_true, decide_true]
      · simp only [here, if_false, decide_false, Bool.false_eq_true]

variable {first second : List (List F32)}

omit [FloatOrder D] in
theorem recompute_perm (orderFree : OrderFree host) (permuted : first.Perm second)
    (cells : List F32 → Nat) (centroids : List (List F32)) :
    recompute host centroids first (first.map cells) =
      recompute host centroids second (second.map cells) := by
  have same : ∀ cell, (members first (first.map cells) cell).Perm
      (members second (second.map cells) cell) := by
    intro cell
    rw [members_map, members_map]
    exact permuted.filter _
  unfold recompute
  congr 1
  funext cell centroid
  rw [orderFree _ _ (same cell)]
  by_cases empty : members second (second.map cells) cell = []
  · rw [if_pos empty, if_pos (List.Perm.eq_nil (empty ▸ same cell))]
  · rw [if_neg empty, if_neg]
    intro none
    exact empty (List.Perm.eq_nil (none ▸ (same cell).symm))

omit [FloatOrder D] in
theorem length_recompute (centroids vectors : List (List F32)) (assignment : List Nat) :
    (recompute host centroids vectors assignment).length = centroids.length :=
  List.length_mapIdx

/-- Induction over the rounds left: assignments are those of one function. -/
theorem refine_perm (orderFree : OrderFree host) (permuted : first.Perm second) (rounds : Nat)
    (isFirst : Bool) (cells : List F32 → Nat) (centroids : List (List F32)) :
    ∃ final settled,
      refine host first rounds isFirst (first.map cells) centroids = (first.map final, settled) ∧
      refine host second rounds isFirst (second.map cells) centroids =
        (second.map final, settled) ∧
      settled.length = centroids.length := by
  induction rounds generalizing isFirst cells centroids with
  | zero => exact ⟨cells, centroids, rfl, rfl, rfl⟩
  | succ rounds ih =>
      have moved := recompute_perm host orderFree permuted (cellOf host centroids) centroids
      have stable : first.map (cellOf host centroids) = first.map cells ↔
          second.map (cellOf host centroids) = second.map cells := by
        rw [List.map_inj_left, List.map_inj_left]
        exact forall_congr' (fun vec => by rw [permuted.mem_iff])
      have unfoldFirst : ∀ vectors, assign host centroids vectors =
          vectors.map (cellOf host centroids) := fun _ => rfl
      simp only [refine, unfoldFirst]
      by_cases ends : second.map (cellOf host centroids) = second.map cells ∧ isFirst = false
      · rw [if_pos ends, if_pos ⟨stable.mpr ends.1, ends.2⟩, moved]
        exact ⟨_, _, rfl, rfl, length_recompute host _ _ _⟩
      · rw [if_neg ends, if_neg (fun both => ends ⟨stable.mp both.1, both.2⟩), moved]
        obtain ⟨final, settled, one, other, length⟩ := ih false (cellOf host centroids)
          (recompute host centroids second (second.map (cellOf host centroids)))
        exact ⟨final, settled, one, other, length.trans (length_recompute host _ _ _)⟩

end KMeans

section Slots

variable {index : IvfIndex}

def livePairs (index : IvfIndex) : List (IvfEntry × Nat) :=
  index.entries.zipIdx.filter (fun entry => !entry.1.deleted)

def liveEntries (index : IvfIndex) : List IvfEntry :=
  index.entries.filter (fun entry => !entry.deleted)

theorem livePairs_fst (index : IvfIndex) : index.livePairs.map Prod.fst = index.liveEntries := by
  calc index.livePairs.map Prod.fst
      = (index.entries.zipIdx.map Prod.fst).filter (fun entry => !entry.deleted) := by
        rw [List.filter_map]
        rfl
    _ = index.liveEntries := by rw [List.zipIdx_map_fst]; rfl

theorem livePairs_spec {pair : IvfEntry × Nat} (member : pair ∈ index.livePairs) :
    access index.entries pair.2 = .ok pair.1 ∧ pair.1.deleted = false := by
  obtain ⟨inside, live⟩ := List.mem_filter.mp member
  have found := List.mem_zipIdx_iff_getElem?.mp inside
  exact ⟨by simp only [access, found], by simpa using live⟩

theorem vectorsOf_pairs (pairs : List (IvfEntry × Nat)) (sub : ∀ pair ∈ pairs,
    pair ∈ index.livePairs) :
    index.vectorsOf (pairs.map Prod.snd) = .ok (pairs.map (fun pair => pair.1.vector)) := by
  induction pairs with
  | nil => rfl
  | cons pair rest ih =>
      have later := ih (fun other member => sub other (List.mem_cons_of_mem pair member))
      have here := (livePairs_spec (sub pair List.mem_cons_self)).1
      unfold vectorsOf at later ⊢
      rw [List.map_cons, List.mapM_cons, here, later]
      rfl

theorem cellCount_bounds {live : Nat} (some_ : 1 ≤ live) :
    1 ≤ index.cellCount live ∧ index.cellCount live ≤ live := by
  unfold cellCount
  simp only
  split_ifs <;> omega

variable {D : Type} (host : Host D)

/-- The live entries whose vectors the centroids start from. -/
def drawn (index : IvfIndex) : List IvfEntry :=
  ((host.shuffled index.seed index.liveEntries.length).take
    (index.cellCount index.liveEntries.length)).filterMap (fun position =>
      index.liveEntries[position]?)

theorem liveSlots_length (index : IvfIndex) : index.liveSlots.length = index.liveEntries.length := by
  rw [← livePairs_fst, List.length_map, liveSlots, List.length_map]
  rfl

theorem picked_inside {A : Type} {items : List A} {positions : List Nat}
    (inside : ∀ position ∈ positions, position < items.length) (default : A) :
    positions.filterMap (fun position => items[position]?) =
      positions.map (fun position => items.getD position default) := by
  induction positions with
  | nil => rfl
  | cons position rest ih =>
      have here := inside position List.mem_cons_self
      rw [List.filterMap_cons_some (List.getElem?_eq_getElem here), List.map_cons,
        List.getD_eq_getElem?_getD, List.getElem?_eq_getElem here, Option.getD_some,
        ih (fun other member => inside other (List.mem_cons_of_mem position member))]

theorem shuffled_inside (seed : UInt64) (length : Nat) :
    ∀ position ∈ host.shuffled seed length, position < length := by
  intro position member
  exact List.mem_range.mp ((host.shuffled_perm seed length).mem_iff.mp member)

theorem length_drawn (index : IvfIndex) :
    (index.drawn host).length =
      min (index.cellCount index.liveEntries.length) index.liveEntries.length := by
  have length := (host.shuffled_perm index.seed index.liveEntries.length).length_eq
  rw [List.length_range] at length
  unfold drawn
  cases live : index.liveEntries with
  | nil =>
      simp
  | cons entry rest =>
      rw [← live, picked_inside (fun position member => shuffled_inside host _ _ position
        (List.mem_of_mem_take member)) entry, List.length_map, List.length_take, length]

theorem mem_drawn {entry : IvfEntry} (member : entry ∈ index.drawn host) :
    entry ∈ index.liveEntries := by
  rcases List.mem_filterMap.mp member with ⟨position, _, found⟩
  exact List.mem_of_getElem? found

theorem shuffleSlots_drawn (index : IvfIndex) :
    ∃ shuffled, index.shuffleSlots host index.liveSlots = .ok shuffled ∧
      index.vectorsOf (shuffled.take (index.cellCount index.liveSlots.length)) =
        .ok ((index.drawn host).map IvfEntry.vector) := by
  have inside : ∀ position ∈ host.shuffled index.seed index.liveSlots.length,
      position < index.liveSlots.length := shuffled_inside host index.seed _
  have shuffled : index.shuffleSlots host index.liveSlots =
      .ok ((host.shuffled index.seed index.liveSlots.length).map
        (fun position => index.liveSlots.getD position 0)) := by
    apply mapM_eq
    intro position member
    simp only [access, List.getD_eq_getElem?_getD, List.getElem?_eq_getElem (inside _ member),
      Option.getD_some]
  refine ⟨_, shuffled, ?_⟩
  -- The slots drawn belong to the pairs at the positions drawn.
  have slots : ((host.shuffled index.seed index.liveSlots.length).map
      (fun position => index.liveSlots.getD position 0)).take
        (index.cellCount index.liveSlots.length) =
      (((host.shuffled index.seed index.liveSlots.length).take
        (index.cellCount index.liveSlots.length)).filterMap
          (fun position => index.livePairs[position]?)).map Prod.snd := by
    rw [← List.map_take, ← picked_inside (fun position member =>
      inside position (List.mem_of_mem_take member)) 0, List.map_filterMap]
    congr 1
    funext position
    exact List.getElem?_map
  have entries : ((host.shuffled index.seed index.liveSlots.length).take
        (index.cellCount index.liveSlots.length)).filterMap
          (fun position => (index.livePairs[position]?).map Prod.fst) = index.drawn host := by
    rw [drawn, ← liveSlots_length]
    congr 1
    funext position
    rw [← livePairs_fst, List.getElem?_map]
  rw [slots, vectorsOf_pairs, ← entries, ← List.map_filterMap, List.map_map]
  · rfl
  · intro pair member
    rcases List.mem_filterMap.mp member with ⟨position, _, found⟩
    exact List.mem_of_getElem? found

end Slots

section Search

variable {D : Type} [FloatOrder D] (host : Host D) {index built : IvfIndex}

/-- The posting lists hold the live entries by the cell of their vector. -/
structure Clustered (index : IvfIndex) (cells : List F32 → Nat) (centroids : List (List F32)) :
    Prop where
  settled : index.centroids = centroids
  lists : index.invertedLists = (List.range centroids.length).map (fun cell =>
    (index.livePairs.filter (fun pair => cells pair.1.vector = cell)).map Prod.snd)

theorem posting_list (pairs : List (IvfEntry × Nat)) (cells : List F32 → Nat) (cell : Nat) :
    ((pairs.map Prod.snd).zip ((pairs.map (fun pair => pair.1.vector)).map cells)).filterMap
        (fun pair => if pair.2 = cell then some pair.1 else none) =
      (pairs.filter (fun pair => cells pair.1.vector = cell)).map Prod.snd := by
  induction pairs with
  | nil => rfl
  | cons pair rest ih =>
      rw [List.map_cons, List.map_cons, List.map_cons, List.zip_cons_cons, List.filterMap_cons,
        List.filter_cons, ih]
      by_cases here : cells pair.1.vector = cell
      · simp only [here, if_true, decide_true, List.map_cons]
      · simp only [here, if_false, decide_false, Bool.false_eq_true]

theorem ensurePartitionsBuilt_stale (stale : index.dirty = true) (some_ : index.liveSlots ≠ [])
    {cells : List F32 → Nat} {settled : List (List F32)}
    (ends : refine host (index.livePairs.map (fun pair => pair.1.vector)) maxKMeansIterations true
      ((index.livePairs.map (fun pair => pair.1.vector)).map (fun _ => 0))
        ((index.drawn host).map IvfEntry.vector) =
        ((index.livePairs.map (fun pair => pair.1.vector)).map cells, settled))
    (length : settled.length = (index.drawn host).length) :
    ∃ built, index.ensurePartitionsBuilt host = .ok built ∧ built.Clustered cells settled ∧
      built.dirty = false := by
  rcases index.shuffleSlots_drawn host with ⟨shuffled, isShuffled, isInitial⟩
  have count : (index.drawn host).length = index.cellCount index.liveSlots.length := by
    rw [length_drawn, ← liveSlots_length]
    exact Nat.min_eq_left (cellCount_bounds (List.length_pos_iff.mpr some_)).2
  have vectors : index.vectorsOf index.liveSlots =
      .ok (index.livePairs.map (fun pair => pair.1.vector)) :=
    vectorsOf_pairs index.livePairs (fun _ member => member)
  have zeros : List.replicate index.liveSlots.length 0 =
      (index.livePairs.map (fun pair => pair.1.vector)).map (fun _ => 0) := by
    rw [List.map_const', List.length_map, liveSlots, List.length_map]
    rfl
  refine ⟨{ index with
    centroids := settled
    invertedLists := (List.range settled.length).map (fun cell =>
      (index.livePairs.filter (fun pair => cells pair.1.vector = cell)).map Prod.snd)
    dirty := false }, ?_, ⟨rfl, rfl⟩, rfl⟩
  have lists : ∀ cell, (index.liveSlots.zip ((index.livePairs.map
      (fun pair => pair.1.vector)).map cells)).filterMap
        (fun pair => if pair.2 = cell then some pair.1 else none) =
      (index.livePairs.filter (fun pair => cells pair.1.vector = cell)).map Prod.snd :=
    posting_list index.livePairs cells
  simp only [ensurePartitionsBuilt, stale, Bool.true_eq_false, if_false, some_, isShuffled, bind,
    Except.bind, isInitial, vectors, zeros, ends, lists, length, count]
  rfl

def posted (index : IvfIndex) (cells : List F32 → Nat) (q : List F32) (cell : Nat) :
    List (Candidate D) :=
  (index.liveEntries.filter (fun entry => cells entry.vector = cell)).map
    (fun entry => ⟨entry.id, host.distanceOr index.metric q entry.vector⟩)

theorem scanCell_pairs (q : List F32) (pairs : List (IvfEntry × Nat))
    (sub : ∀ pair ∈ pairs, pair ∈ index.livePairs) :
    index.scanCell host q (pairs.map Prod.snd) = .ok (pairs.map
      (fun pair => ⟨pair.1.id, host.distanceOr index.metric q pair.1.vector⟩)) := by
  induction pairs with
  | nil => rfl
  | cons pair rest ih =>
      have later := ih (fun other member => sub other (List.mem_cons_of_mem pair member))
      have here := livePairs_spec (sub pair List.mem_cons_self)
      simp only [List.map_cons, scanCell, here.1, bind, Except.bind, later, here.2,
        Bool.false_eq_true, if_false]
      rfl

theorem scanCells_clustered {cells : List F32 → Nat} {centroids : List (List F32)}
    (clustered : index.Clustered cells centroids) (q : List F32) (probes : List (D × Nat))
    (inside : ∀ probe ∈ probes, probe.2 < centroids.length) :
    index.scanCells host q probes =
      .ok (probes.flatMap (fun probe => index.posted host cells q probe.2)) := by
  induction probes with
  | nil => rfl
  | cons probe rest ih =>
      have later := ih (fun other member => inside other (List.mem_cons_of_mem probe member))
      have here := inside probe List.mem_cons_self
      have list : access index.invertedLists probe.2 =
          .ok ((index.livePairs.filter (fun pair => cells pair.1.vector = probe.2)).map
            Prod.snd) := by
        simp only [access, clustered.lists, List.getElem?_map, List.getElem?_range here,
          Option.map_some]
      have scanned := scanCell_pairs host q
        (index.livePairs.filter (fun pair => cells pair.1.vector = probe.2))
        (fun _ member => (List.mem_filter.mp member).1)
      have isPosted : (index.livePairs.filter
            (fun pair => cells pair.1.vector = probe.2)).map (fun pair => (⟨pair.1.id,
              host.distanceOr index.metric q pair.1.vector⟩ : Candidate D)) =
          index.posted host cells q probe.2 := by
        rw [posted, ← livePairs_fst, List.filter_map, List.map_map]
        rfl
      simp only [scanCells, list, bind, Except.bind, scanned, isPosted, later, List.flatMap_cons]
      rfl

end Search

end VectorVault.IvfIndex
