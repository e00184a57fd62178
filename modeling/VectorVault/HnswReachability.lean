import VectorVault.HnswReached

/-! Which records an exhaustive search finds.

With room for every node, a search returns the live records connected on layer 0
to the node its descent ends at. As long as no list has had to drop a neighbour
every node is connected to every other; once one has, a record can be lost. -/

namespace VectorVault.HnswIndex

open FloatOrder BestFirst

section Built

variable {D : Type} [FloatOrder D]

/-- The indexes additions and removals lead to, where a node is only ever added to
an index in `allowed`. -/
inductive Built (host : Host D) (dimensionality : UInt32) (metric : DistanceMetric)
    (params : IndexParams) (allowed : HnswIndex → Prop) : HnswIndex → Prop
  | new : Built host dimensionality metric params allowed (new dimensionality metric params)
  | add {index after : HnswIndex} {status : Status} (id : RecordId) (vec : List F32)
      (before : Built host dimensionality metric params allowed index)
      (added : index.add host id vec = .ok (status, after))
      (room : index.nodes.length < after.nodes.length → allowed index)
      (small : after.nodes.length < 2 ^ 31) :
      Built host dimensionality metric params allowed after
  | remove {index after : HnswIndex} {status : Status} (id : RecordId)
      (before : Built host dimensionality metric params allowed index)
      (removed : index.remove id = .ok (status, after)) :
      Built host dimensionality metric params allowed after

variable {host : Host D} {dimensionality : UInt32} {metric : DistanceMetric}
  {params : IndexParams} {allowed : HnswIndex → Prop} {index : HnswIndex} {layer : Nat}

theorem Built.reached (built : Built host dimensionality metric params allowed index) :
    Reached host dimensionality metric params index := by
  induction built with
  | new => exact Reached.new
  | add id vec _ added _ small ih => exact Reached.add id vec ih added small
  | remove id _ removed ih => exact Reached.remove id ih removed

/-- Every node leads to every other on layer 0. -/
def Joined (index : HnswIndex) : Prop :=
  ∀ first < index.nodes.length, ∀ second < index.nodes.length,
    Connected (index.linked 0) first second

/-- Every list of layer 0 has room for one more neighbour. -/
def Roomy (index : HnswIndex) : Prop :=
  ∀ node, (index.linked 0 node).length < index.maxNeighborsForLayer 0

theorem linked_beyond : index.linked layer index.nodes.length = [] := by
  simp [linked]

theorem Joined.connect {selected : List Nat} {before after : HnswIndex}
    (joined : index.Joined) (roomy : index.Roomy)
    (same : ∀ node, before.linked 0 node = index.linked 0 node)
    (limit : before.maxNeighborsForLayer 0 = index.maxNeighborsForLayer 0)
    (length : before.nodes.length = index.nodes.length + 1)
    (step : ConnectStep index.nodes.length 0 selected before after) : after.Joined := by
  have roomyOf : ∀ node ∈ selected, after.linked 0 node =
      index.linked 0 node ++ [index.nodes.length] := by
    intro node chosen
    rw [step.roomy node chosen (by rw [same, limit]; exact roomy node), same]
  have kept : ∀ node, ∀ next ∈ index.linked 0 node, next ∈ after.linked 0 node := by
    intro node next edge
    have old : node ≠ index.nodes.length := by
      intro new
      rw [new, linked_beyond] at edge
      cases edge
    by_cases chosen : node ∈ selected
    · rw [roomyOf node chosen]
      exact List.mem_append_left _ edge
    · rw [step.elsewhere 0 node (by simp [old, chosen]), same]
      exact edge
  have old : ∀ first < index.nodes.length, ∀ second < index.nodes.length,
      Connected (after.linked 0) first second :=
    fun first inFirst second inSecond =>
      Relation.ReflTransGen.mono kept _ _ (joined first inFirst second inSecond)
  have positive : 1 ≤ before.maxNeighborsForLayer 0 := by
    rw [limit]
    exact Nat.lt_of_le_of_lt (Nat.zero_le _) (roomy 0)
  obtain ⟨chosen, member⟩ := List.exists_mem_of_ne_nil selected (step.some positive)
  obtain ⟨apart, there⟩ := step.others chosen member
  have valid : chosen < index.nodes.length := by
    have bound := there.valid
    omega
  have out : Connected (after.linked 0) index.nodes.length chosen := by
    apply Relation.ReflTransGen.single
    rw [step.own]
    exact member
  have back : Connected (after.linked 0) chosen index.nodes.length := by
    apply Relation.ReflTransGen.single
    rw [roomyOf chosen member]
    exact List.mem_append_right _ List.mem_cons_self
  have size := step.rewired.length
  intro first inFirst second inSecond
  by_cases newFirst : first = index.nodes.length
  · by_cases newSecond : second = index.nodes.length
    · rw [newFirst, newSecond]
    · rw [newFirst]
      exact out.trans (old chosen valid second (by omega))
  · by_cases newSecond : second = index.nodes.length
    · rw [newSecond]
      exact (old first (by omega) chosen valid).trans back
    · exact old first (by omega) second (by omega)

/-- Induction rule for an addition and the lists of layer 0: the layers above leave
them alone, and the last step links the new node there. -/
theorem add_bottom (wellFormed : index.WellFormed) (property : Nat → (Nat → List Nat) → Prop)
    (holds : property index.nodes.length (index.linked 0))
    (alone : index.nodes.length = 0 → property 1 (index.linked 0))
    (connect : ∀ selected before after, (∀ node, before.linked 0 node = index.linked 0 node) →
      before.maxNeighborsForLayer 0 = index.maxNeighborsForLayer 0 →
      before.nodes.length = index.nodes.length + 1 →
      ConnectStep index.nodes.length 0 selected before after →
      property (index.nodes.length + 1) (after.linked 0))
    {id : RecordId} {vec : List F32} {status : Status} {after : HnswIndex}
    (added : index.add host id vec = .ok (status, after)) :
    property after.nodes.length (after.linked 0) := by
  obtain ⟨_, _, result, cases_⟩ := add_spec host wellFormed.traversable id vec
    (fun layer now => if layer = 0 then property (index.nodes.length + 1) (now.linked 0)
      else ∀ node, now.linked 0 node = index.linked 0 node)
    (by
      intro level empty
      have none : index.nodes.length = 0 := by
        by_contra some_
        have nonempty : index.nodes ≠ [] := fun nothing => some_ (by rw [nothing]; rfl)
        obtain ⟨entry, _, isEntry, _⟩ := wellFormed.top nonempty
        omega
      have same : (index.appendNode id vec level).linked 0 = index.linked 0 :=
        funext (linked_appendNode index id vec level 0)
      rw [if_pos rfl, none, same]
      exact alone none)
    (by
      intro level started
      have top : 0 ≤ index.maxLevel := by
        rcases wellFormed.traversable.entry with negative | ⟨_, _, _, found, _⟩
        · exact absurd negative started
        · obtain ⟨_, _, _, _, isMax, _⟩ := wellFormed.top (List.ne_nil_of_mem
            (List.mem_of_getElem? found))
          omega
      rw [if_neg (by omega)]
      exact linked_appendNode index id vec level 0)
    (by
      intro level layer selected before after rewired step invariant
      rw [if_neg (Nat.succ_ne_zero layer)] at invariant
      by_cases bottom : layer = 0
      · rw [if_pos bottom]
        rw [bottom] at step
        apply connect selected before after invariant (rewired.limit 0) _ step
        rw [rewired.length, appendNode_length]
      · rw [if_neg bottom]
        intro node
        rw [step.elsewhere 0 node (fun same => bottom same.1.symm)]
        exact invariant node)
  rw [added] at result
  cases result
  rcases cases_ with rejected | ⟨_, _, revived | inserted⟩
  · obtain ⟨_, _, _, same⟩ := rejected
    rw [same]
    exact holds
  · obtain ⟨node, held, _, found, same⟩ := revived
    have lists : (index.revive node held vec).linked 0 = index.linked 0 :=
      funext (@linked_set index node held { held with vector := vec, deleted := false } found rfl 0)
    rw [same, lists, revive, List.length_set]
    exact holds
  · obtain ⟨_, level, connected, _, rewired, _, kept, same⟩ := inserted
    have lists : (connected.crowned index.nodes.length level).linked 0 = connected.linked 0 :=
      funext (crowned_linked connected index.nodes.length level 0)
    rw [same, lists, crowned_nodes, rewired.length, appendNode_length]
    rw [if_pos rfl] at kept
    exact kept

theorem remove_lists (traversable : index.Traversable) {id : RecordId} {status : Status}
    {after : HnswIndex} (removed : index.remove id = .ok (status, after)) :
    after.nodes.length = index.nodes.length ∧ ∀ layer, after.linked layer = index.linked layer := by
  obtain ⟨_, _, result, cases_⟩ := remove_spec traversable id
  rw [removed] at result
  cases result
  rcases cases_ with ⟨_, _, same⟩ | ⟨node, held, _, found, ⟨_, _, same⟩ | ⟨_, _, same⟩⟩
  · rw [same]
    exact ⟨rfl, fun _ => rfl⟩
  · rw [same]
    exact ⟨rfl, fun _ => rfl⟩
  · rw [same]
    exact ⟨List.length_set, fun layer =>
      funext (@linked_set index node held { held with deleted := true } found rfl layer)⟩

theorem add_joined (wellFormed : index.WellFormed) (joined : index.Joined)
    {id : RecordId} {vec : List F32} {status : Status} {after : HnswIndex}
    (added : index.add host id vec = .ok (status, after))
    (room : index.nodes.length < after.nodes.length → index.Roomy) : after.Joined := by
  by_cases grew : index.nodes.length < after.nodes.length
  · apply add_bottom wellFormed (fun count links =>
      ∀ first < count, ∀ second < count, Connected links first second) joined _ _ added
    · intro _ first inFirst second inSecond
      have same : first = second := by omega
      rw [same]
    · intro selected before after same limit length step
      have now := joined.connect (room grew) same limit length step
      rw [Joined, step.rewired.length, length] at now
      exact now
  · -- No node is new, so no list has changed.
    have kept := add_bottom wellFormed (fun count links => index.nodes.length < count ∨
      (count = index.nodes.length ∧ links = index.linked 0)) (Or.inr ⟨rfl, rfl⟩)
      (fun none => Or.inl (by omega)) (fun _ _ _ _ _ _ _ => Or.inl (Nat.lt_succ_self _)) added
    rcases kept with more | ⟨length, lists⟩
    · exact absurd more grew
    · intro first inFirst second inSecond
      rw [length] at inFirst inSecond
      rw [lists]
      exact joined first inFirst second inSecond

theorem Built.joined (built : Built host dimensionality metric params Roomy index) :
    index.Joined := by
  induction built with
  | new =>
      intro first none
      cases none
  | add id vec before added room _ ih => exact add_joined before.reached.wellFormed.1 ih added room
  | remove id before removed ih =>
      obtain ⟨length, lists⟩ := remove_lists before.reached.wellFormed.1.traversable removed
      intro first inFirst second inSecond
      rw [length] at inFirst inSecond
      rw [lists]
      exact ih first inFirst second inSecond

theorem WellFormed.degree_lt (wellFormed : index.WellFormed) (layer node : Nat)
    (some_ : 1 ≤ index.nodes.length) : (index.linked layer node).length < index.nodes.length := by
  by_cases valid : node < index.nodes.length
  · have inside : ∀ next ∈ node :: index.linked layer node, next ∈ List.range index.nodes.length := by
      intro next member
      rw [List.mem_range]
      rcases List.mem_cons.mp member with same | edge
      · rw [same]
        exact valid
      · exact (wellFormed.traversable.edges layer node next edge).valid
    have distinct := List.nodup_cons.mpr
      ⟨wellFormed.tidy.noSelf layer node, wellFormed.tidy.nodup layer node⟩
    have bound := (List.subperm_of_subset distinct inside).length_le
    rw [List.length_cons, List.length_range] at bound
    exact bound
  · have none : index.linked layer node = [] := by
      simp [linked, List.getElem?_eq_none (not_lt.mp valid)]
    rw [none]
    exact some_

theorem add_length (traversable : index.Traversable) {id : RecordId} {vec : List F32}
    {status : Status} {after : HnswIndex} (added : index.add host id vec = .ok (status, after)) :
    after.nodes.length = index.nodes.length ∨ after.nodes.length = index.nodes.length + 1 := by
  obtain ⟨_, _, result, cases_⟩ := add_spec host traversable id vec
    (fun _ _ => True) (fun _ _ => trivial) (fun _ _ => trivial) (fun _ _ _ _ _ _ _ _ => trivial)
  rw [added] at result
  cases result
  rcases cases_ with rejected | ⟨_, _, revived | inserted⟩
  · obtain ⟨_, _, _, same⟩ := rejected
    exact Or.inl (by rw [same])
  · obtain ⟨node, held, _, _, same⟩ := revived
    exact Or.inl (by rw [same, revive, List.length_set])
  · obtain ⟨_, level, connected, _, rewired, _, _, same⟩ := inserted
    exact Or.inr (by rw [same, crowned_nodes, rewired.length, appendNode_length])

theorem Configured.limit (configured : index.Configured dimensionality metric params)
    (wellFormed : index.WellFormed) (atLeast : 2 ≤ params.m.toNat) (atMost : params.m.toNat < 2 ^ 31) :
    index.maxNeighborsForLayer 0 = 2 * params.m.toNat := by
  have large : ¬ params.m < 2 := by
    rw [UInt32.lt_iff_toNat_lt]
    exact not_lt.mpr atLeast
  have upper : index.maxNeighborsUpper = params.m := by
    rw [configured.upper]
    simp only [new, if_neg large]
  have product : (params.m * 2).toNat = params.m.toNat * 2 % 2 ^ 32 := UInt32.toNat_mul _ _
  calc index.maxNeighborsForLayer 0 = (params.m * 2).toNat := by
        rw [maxNeighborsForLayer, if_pos rfl, wellFormed.layer0, upper]
    _ = 2 * params.m.toNat := by omega

theorem Built.roomy (built : Built host dimensionality metric params allowed index)
    (atLeast : 2 ≤ params.m.toNat) (atMost : params.m.toNat < 2 ^ 31)
    (few : index.nodes.length ≤ 2 * params.m.toNat + 1) :
    Built host dimensionality metric params Roomy index := by
  induction built with
  | new => exact Built.new
  | @add index after status id vec before added _ small ih =>
      obtain ⟨wellFormed, configured⟩ := before.reached.wellFormed
      have growth := add_length wellFormed.traversable added
      have limit := configured.limit wellFormed atLeast atMost
      have room : index.nodes.length < after.nodes.length → index.Roomy := by
        intro grew node
        rw [limit]
        by_cases none : index.nodes.length = 0
        · have empty : index.linked 0 node = [] := by
            rw [List.length_eq_zero_iff] at none
            simp [linked, none]
          rw [empty, List.length_nil]
          omega
        · have fewer := wellFormed.degree_lt 0 node (by omega)
          omega
      exact Built.add id vec (ih (by omega)) added room small
  | remove id before removed ih =>
      obtain ⟨_, length⟩ := remove_settings before.reached.wellFormed.1.traversable removed
      exact Built.remove id (ih (by omega)) removed

end Built

section Exhaustive

variable {D : Type} [FloatOrder D] {host : Host D} {index : HnswIndex}

omit [FloatOrder D] in
theorem liveOf_ids (index : HnswIndex) (found : List (D × Nat)) :
    (index.liveOf found).map Candidate.id =
      (found.map Prod.snd).filterMap (fun node => (index.nodes[node]?).bind
        (fun held => if held.deleted then none else some held.id)) := by
  induction found with
  | nil => rfl
  | cons item rest ih =>
      simp only [liveOf, List.filterMap_cons, List.map_cons] at ih ⊢
      cases there : index.nodes[item.2]? with
      | none => simpa using ih
      | some held =>
          cases gone : held.deleted with
          | true => simpa [gone] using ih
          | false => simpa [gone] using ih

theorem mem_liveId (node : Nat) (id : RecordId) :
    (index.nodes[node]?).bind (fun held => if held.deleted then none else some held.id) = some id ↔
      ∃ held, index.nodes[node]? = some held ∧ held.deleted = false ∧ held.id = id := by
  cases index.nodes[node]? with
  | none => simp
  | some held => cases gone : held.deleted <;> simp [gone]

omit [FloatOrder D] in
theorem mem_liveOf (found : List (D × Nat)) (id : RecordId) :
    id ∈ (index.liveOf found).map Candidate.id ↔ ∃ node held, node ∈ found.map Prod.snd ∧
      index.nodes[node]? = some held ∧ held.deleted = false ∧ held.id = id := by
  rw [liveOf_ids, List.mem_filterMap]
  constructor
  · intro listed
    obtain ⟨node, member, same⟩ := listed
    obtain ⟨held, there, live, named⟩ := (mem_liveId node id).mp same
    exact ⟨node, held, member, there, live, named⟩
  · intro listed
    obtain ⟨node, held, member, there, live, named⟩ := listed
    exact ⟨node, member, (mem_liveId node id).mpr ⟨held, there, live, named⟩⟩

omit [FloatOrder D] in
theorem WellFormed.liveOf_nodup (wellFormed : index.WellFormed) (found : List (D × Nat))
    (distinct : (found.map Prod.snd).Nodup) :
    ((index.liveOf found).map Candidate.id).Nodup ∧
      (index.liveOf found).length ≤ index.liveCount := by
  have nodup : ((index.liveOf found).map Candidate.id).Nodup := by
    rw [liveOf_ids]
    apply distinct.filterMap
    intro first second id ofFirst ofSecond
    obtain ⟨a, foundA, _, namedA⟩ := (mem_liveId first id).mp ofFirst
    obtain ⟨b, foundB, _, namedB⟩ := (mem_liveId second id).mp ofSecond
    exact wellFormed.ids first second a b foundA foundB (namedA.trans namedB.symm)
  have inside : ∀ id ∈ (index.liveOf found).map Candidate.id,
      id ∈ (index.nodes.filter Live).map HnswNode.id := by
    intro id member
    obtain ⟨node, held, _, there, live, named⟩ := (mem_liveOf found id).mp member
    have listed : held ∈ index.nodes.filter Live :=
      List.mem_filter.mpr ⟨List.mem_of_getElem? there, by simp [Live, live]⟩
    exact List.mem_map.mpr ⟨held, listed, named⟩
  have bound := (List.subperm_of_subset nodup inside).length_le
  rw [List.length_map, List.length_map] at bound
  refine ⟨nodup, ?_⟩
  calc (index.liveOf found).length ≤ (index.nodes.filter Live).length := bound
    _ = index.nodes.countP Live := List.countP_eq_length_filter.symm
    _ = index.liveCount := wellFormed.liveCount.symm

def Leads (index : HnswIndex) (current : Nat) (id : RecordId) : Prop :=
  ∃ node held, Connected (index.linked 0) current node ∧ index.nodes[node]? = some held ∧
    held.deleted = false ∧ held.id = id

theorem WellFormed.none_live (wellFormed : index.WellFormed) {k : UInt32}
    (all : index.liveCount ≤ k.toNat)
    (nothing : index.entryPoint < 0 ∨ k = 0 ∨ index.liveCount = 0) {node : Nat} {held : HnswNode}
    (found : index.nodes[node]? = some held) : held.deleted = true := by
  have member := List.mem_of_getElem? found
  have zero : index.liveCount = 0 := by
    rcases nothing with negative | isZero | isZero
    · rcases wellFormed.top (List.ne_nil_of_mem member) with ⟨entry, _, isEntry, _⟩
      omega
    · rw [isZero, UInt32.toNat_zero] at all
      omega
    · exact isZero
  rw [wellFormed.liveCount, List.countP_eq_zero] at zero
  simpa [Live] using zero held member

theorem le_breadth {k : UInt32} {queryParams : QueryParams} {count : Nat}
    (wide : count ≤ queryParams.efSearch.toNat) : count ≤ breadth k queryParams := by
  apply wide.trans
  unfold breadth
  split
  · next small =>
      rw [UInt32.lt_iff_toNat_lt, UInt32.toNat_one] at small
      omega
  · exact Nat.le_max_left _ _

variable (host) in
theorem WellFormed.search_reaches (wellFormed : index.WellFormed) (q : List F32) (k : UInt32)
    (queryParams : QueryParams) (wide : index.nodes.length ≤ queryParams.efSearch.toNat)
    (some_ : ¬ (index.entryPoint < 0 ∨ k = 0 ∨ index.liveCount = 0)) :
    ∃ current reached,
      index.descendLayers host q 0 index.maxLevel.toNat index.entryPoint.toNat = .ok current ∧
      index.search host q k queryParams =
        .ok ((sortBy candidateLt (index.liveOf reached)).take k.toNat) ∧
      (reached.map Prod.snd).Nodup ∧
      ∀ node, node ∈ reached.map Prod.snd ↔ Connected (index.linked 0) current node := by
  rcases wellFormed.traversable.descends host q (fun negative => some_ (Or.inl negative)) with
    ⟨current, descended, there⟩
  have onLayer : ∀ node, Connected (index.linked 0) current node → index.OnLayer 0 node := by
    intro node path
    induction path with
    | refl => exact there
    | tail _ edge ih => exact wellFormed.traversable.edges 0 _ _ edge
  have closed : index.Closed 0 (Connected (index.linked 0) current) :=
    fun node path => ⟨onLayer node path, fun next edge => path.tail edge⟩
  rcases search_spec host q k queryParams some_ descended closed Relation.ReflTransGen.refl with
    ⟨final, result, structural, explored⟩
  have room : (List.range index.nodes.length).length ≤ breadth k queryParams := by
    rw [List.length_range]
    exact le_breadth wide
  rcases explore_complete (index.score host q) (index.linked 0) (breadth k queryParams)
    (List.range index.nodes.length) current (index.nodes.length + 2)
    (fun node path => List.mem_range.mpr (onLayer node path).valid) room
    (by rw [List.length_range]; omega) with ⟨same, reexplored, _, complete⟩
  rw [explored, Option.some.injEq] at reexplored
  rw [← reexplored] at complete
  refine ⟨current, final.result.reverse, descended, result, ?_, ?_⟩
  · rw [List.map_reverse, List.nodup_reverse]
    exact structural.resultNodup
  · intro node
    rw [List.map_reverse, List.mem_reverse]
    constructor
    · intro member
      exact structural.reached node (structural.result_visited member)
    · exact complete node

variable (host) in
theorem WellFormed.search_complete (wellFormed : index.WellFormed) (q : List F32) (k : UInt32)
    (queryParams : QueryParams) (wide : index.nodes.length ≤ queryParams.efSearch.toNat)
    (all : index.liveCount ≤ k.toNat) :
    ∃ candidates, index.search host q k queryParams = .ok candidates ∧
      (candidates.map Candidate.id).Nodup ∧
      ∀ id, id ∈ candidates.map Candidate.id ↔ ∃ current,
        index.descendLayers host q 0 index.maxLevel.toNat index.entryPoint.toNat = .ok current ∧
          index.Leads current id := by
  by_cases nothing : index.entryPoint < 0 ∨ k = 0 ∨ index.liveCount = 0
  · have result : index.search host q k queryParams = .ok [] := by
      rw [search, if_pos nothing]
      rfl
    refine ⟨[], result, List.nodup_nil, ?_⟩
    intro id
    constructor
    · intro none
      cases none
    · intro leads
      rcases leads with ⟨_, _, node, held, _, found, live, _⟩
      rw [wellFormed.none_live all nothing found] at live
      cases live
  · rcases wellFormed.search_reaches host q k queryParams wide nothing with
      ⟨current, reached, descended, result, distinct, nodes⟩
    rcases wellFormed.liveOf_nodup reached distinct with ⟨nodup, short⟩
    have permuted := sortBy_perm candidateLt (index.liveOf reached)
    have whole : (sortBy candidateLt (index.liveOf reached)).take k.toNat =
        sortBy candidateLt (index.liveOf reached) := by
      apply List.take_of_length_le
      rw [length_sortBy]
      exact short.trans all
    rw [whole] at result
    refine ⟨_, result, (permuted.map Candidate.id).nodup_iff.mpr nodup, ?_⟩
    intro id
    rw [(permuted.map Candidate.id).mem_iff, mem_liveOf]
    constructor
    · intro listed
      rcases listed with ⟨node, held, member, found, live, named⟩
      exact ⟨current, descended, node, held, (nodes node).mp member, found, live, named⟩
    · intro leads
      rcases leads with ⟨other, descendedToo, node, held, path, found, live, named⟩
      rw [descended] at descendedToo
      rw [← Except.ok.inj descendedToo] at path
      exact ⟨node, held, (nodes node).mpr path, found, live, named⟩

/-- An exhaustive search finds the live records connected to the end of its
descent, which are all of them while no list has dropped a neighbour. -/
theorem search_finds_connected {dimensionality : UInt32} {metric : DistanceMetric}
    {params : IndexParams}
    (built : Built host dimensionality metric params (fun _ => True) index)
    (atLeast : 2 ≤ params.m.toNat) (atMost : params.m.toNat < 2 ^ 31) (q : List F32) (k : UInt32)
    (queryParams : QueryParams) (wide : index.nodes.length ≤ queryParams.efSearch.toNat)
    (all : index.liveCount ≤ k.toNat) :
    ∃ candidates, index.search host q k queryParams = .ok candidates ∧
      (candidates.map Candidate.id).Nodup ∧
      (∀ id, id ∈ candidates.map Candidate.id ↔ ∃ current,
        index.descendLayers host q 0 index.maxLevel.toNat index.entryPoint.toNat = .ok current ∧
          index.Leads current id) ∧
      (Built host dimensionality metric params Roomy index ∨
          index.nodes.length ≤ 2 * params.m.toNat + 1 →
        ∀ held ∈ index.nodes, held.deleted = false → held.id ∈ candidates.map Candidate.id) := by
  have wellFormed := built.reached.wellFormed.1
  obtain ⟨candidates, result, nodup, found⟩ :=
    wellFormed.search_complete host q k queryParams wide all
  refine ⟨candidates, result, nodup, found, ?_⟩
  intro room held member live
  have roomy : Built host dimensionality metric params Roomy index := by
    rcases room with always | few
    · exact always
    · exact built.roomy atLeast atMost few
  obtain ⟨node, there⟩ := List.getElem?_of_mem member
  obtain ⟨entry, _, isEntry, _⟩ := wellFormed.top (List.ne_nil_of_mem member)
  obtain ⟨current, descended, onLayer⟩ := wellFormed.traversable.descends host q (by omega)
  have path := roomy.joined current onLayer.valid node (List.getElem?_eq_some_iff.mp there).1
  exact (found held.id).mpr ⟨current, descended, node, held, path, there, live, rfl⟩

end Exhaustive

section Changes

variable {D : Type} [FloatOrder D] {host : Host D} {dimensionality : UInt32}
  {metric : DistanceMetric} {params : IndexParams} {index after : HnswIndex}

theorem Built.changed (built : Built host dimensionality metric params (fun _ => True) index)
    {steps : List Change} (own : ∀ step ∈ steps, step ≠ .reload)
    (done : index.changed host dimensionality metric steps = some after) :
    Built host dimensionality metric params (fun _ => True) after := by
  induction steps generalizing index with
  | nil =>
      cases done
      exact built
  | cons step rest ih =>
      rcases Option.bind_eq_some_iff.mp done with ⟨next, first, later⟩
      apply ih _ (fun other member => own other (List.mem_cons_of_mem step member)) later
      cases step with
      | add id vec =>
          simp only [HnswIndex.change] at first
          split at first
          · next added =>
              split at first
              · next small =>
                  cases first
                  exact built.add id vec added (fun _ => trivial) small
              · cases first
          · cases first
      | remove id =>
          simp only [HnswIndex.change] at first
          split at first
          · next removed =>
              cases first
              exact built.remove id removed
          · cases first
      | reload => exact absurd rfl (own .reload List.mem_cons_self)

theorem exists_of_built (params : IndexParams) (steps : List Change) {holds : HnswIndex → Bool}
    (own : ∀ step ∈ steps, step ≠ .reload)
    (told : ((new dimensionality metric params).changed host dimensionality metric steps).any
      holds = true) :
    ∃ index, Built host dimensionality metric params (fun _ => True) index ∧
      holds index = true := by
  rcases (Option.any_eq_true _ _).mp told with ⟨index, done, facts⟩
  exact ⟨index, Built.new.changed own done, facts⟩

end Changes

/-- Five linked records on two layers, the second of them removed. -/
def thinnedChanges : List Change :=
  [.add [1] [20], .add [2] [10], .add [3] [30], .add [4] [0], .add [5] [40], .remove [2]]

theorem search_finds_linked_records : ∃ index : HnswIndex,
    Built (ExactLine.host [0, 1, 0, 1]) 1 .euclidean { m := 2 } (fun _ => True) index ∧
    index.nodes.length = 5 ∧ index.maxLevel = 1 ∧ index.linked 0 0 = [1, 2] ∧
    ∃ candidates, index.search (ExactLine.host [0, 1, 0, 1]) [5] 4 { efSearch := 5 } =
        .ok candidates ∧
      (candidates.map Candidate.id).Nodup ∧
      ∀ id ∈ [[1], [3], [4], [5]], id ∈ candidates.map Candidate.id := by
  have reaches : ∃ index,
      Built (ExactLine.host [0, 1, 0, 1]) 1 .euclidean { m := 2 } (fun _ => True) index ∧
      decide (index.nodes.length = 5 ∧ index.maxLevel = 1 ∧ index.linked 0 0 = [1, 2] ∧
        index.liveCount = 4 ∧ (index.nodes.filter (fun held => !held.deleted)).map HnswNode.id =
          [[1], [3], [4], [5]]) = true :=
    exists_of_built { m := 2 } thinnedChanges (by decide) (by decide +kernel)
  rcases reaches with ⟨index, built, told⟩
  rcases of_decide_eq_true told with ⟨nodes, level, edges, live, ids⟩
  rcases search_finds_connected built (by decide) (by decide) [5] 4 { efSearch := 5 }
    (by rw [nodes]; decide) (by rw [live]; decide) with ⟨candidates, result, nodup, _, every⟩
  refine ⟨index, built, nodes, level, edges, candidates, result, nodup, ?_⟩
  intro id member
  rw [← ids] at member
  rcases List.mem_map.mp member with ⟨held, isLive, named⟩
  rcases List.mem_filter.mp isLive with ⟨inside, alive⟩
  rw [← named]
  exact every (Or.inr (by rw [nodes]; decide)) held inside (by simpa using alive)

/-- Six records at one point. The fifth neighbour of the first one makes its list
overflow, and pruning keeps a single neighbour: the other four have no way in. -/
theorem search_loses_records : ∃ index : HnswIndex,
    Built (ExactLine.host []) 1 .euclidean { m := 2, efConstruction := 1 } (fun _ => True) index ∧
      index.nodes.length = 6 ∧ index.liveCount = 6 ∧
      (index.nodes[5]?).map (fun held => (held.id, held.deleted)) = some ([102], false) ∧
      ∃ candidates, index.search (ExactLine.host []) [0] 6 { efSearch := 6 } = .ok candidates ∧
        [102] ∉ candidates.map Candidate.id := by
  have a : Built (ExactLine.host []) 1 .euclidean { m := 2, efConstruction := 1 }
    (fun _ => True) _ := Built.add [97] [0] Built.new rfl (fun _ => trivial) (by decide)
  have b := Built.add [98] [0] a rfl (fun _ => trivial) (by decide)
  have c := Built.add [99] [0] b rfl (fun _ => trivial) (by decide)
  have d := Built.add [100] [0] c rfl (fun _ => trivial) (by decide)
  have e := Built.add [101] [0] d rfl (fun _ => trivial) (by decide)
  have f := Built.add [102] [0] e rfl (fun _ => trivial) (by decide)
  exact ⟨_, f, rfl, rfl, rfl, _, rfl, by decide⟩

end VectorVault.HnswIndex
