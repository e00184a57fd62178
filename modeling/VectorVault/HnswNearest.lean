import VectorVault.HnswReachability

/-! What a new node is linked to.

As long as the limit of layer 0 does not wrap around, the heuristic keeps the
nearest candidate on every layer, and no later pruning empties a list. -/

namespace VectorVault.HnswIndex

open FloatOrder

section Links

variable {D : Type} [FloatOrder D] {host : Host D} {index after : HnswIndex}

/-- The node `after` has and `index` has not is linked to the nearest of the
candidates of each layer on which there are other nodes. -/
structure LinksNearest (index after : HnswIndex) (searched : List (List (D × Nat))) : Prop where
  layers : ∀ layer, layer < searched.length ↔
    after.OnLayer layer index.nodes.length ∧ ∃ other, index.OnLayer layer other
  nearest : ∀ layer found, searched[layer]? = some found → ∃ nearest rest,
    sortBy keyedLt found = nearest :: rest ∧
      nearest.2 ∈ after.linked layer index.nodes.length ∧
      ∀ {E : Type} [LinearOrder E] (rank : D → E), Ranks rank →
        ∀ other ∈ found, rank nearest.1 ≤ rank other.1

def Attached (index : HnswIndex) : Prop :=
  2 ≤ index.nodes.length → ∀ node < index.nodes.length, index.linked 0 node ≠ []

structure WellLinked (host : Host D) (index : HnswIndex) : Prop where
  limits : index.maxNeighborsUpper.toNat ≤ index.maxNeighborsLayer0.toNat
  attached : index.Attached
  nearest : ∀ id vec status after, index.add host id vec = .ok (status, after) →
    index.nodes.length < after.nodes.length →
      ∃ searched, index.insertFound host id vec
          (host.randomTopLayer index.rngSeed index.maxNeighborsUpper index.drawn) = .ok searched ∧
        LinksNearest index after searched

theorem Attached.connect {selected : List Nat} {before after : HnswIndex}
    (attached : index.Attached) (room : 1 ≤ index.maxNeighborsForLayer 0)
    (same : ∀ node, before.linked 0 node = index.linked 0 node)
    (limit : before.maxNeighborsForLayer 0 = index.maxNeighborsForLayer 0)
    (length : before.nodes.length = index.nodes.length + 1)
    (step : ConnectStep index.nodes.length 0 selected before after) :
    ∀ node < index.nodes.length + 1, after.linked 0 node ≠ [] := by
  rw [← limit] at room
  have some_ := step.some room
  intro node inside
  by_cases new : node = index.nodes.length
  · rw [new, step.own]
    exact some_
  · by_cases chosen : node ∈ selected
    · exact step.kept room node chosen
    · rw [step.elsewhere 0 node (by simp [new, chosen]), same]
      -- A node not chosen leaves another one to choose, so there were two before.
      obtain ⟨other, member⟩ := List.exists_mem_of_ne_nil selected some_
      obtain ⟨apart, there⟩ := step.others other member
      have valid := there.valid
      have distinct : other ≠ node := fun equal => chosen (equal ▸ member)
      exact attached (by omega) node (by omega)

theorem add_attached (wellFormed : index.WellFormed) (attached : index.Attached)
    (room : 1 ≤ index.maxNeighborsForLayer 0) {id : RecordId} {vec : List F32} {status : Status}
    (added : index.add host id vec = .ok (status, after)) : after.Attached := by
  apply add_bottom wellFormed
    (fun count links => 2 ≤ count → ∀ node < count, links node ≠ []) attached _ _ added
  · intro _ two
    omega
  · intro selected before after same limit length step _
    exact attached.connect room same limit length step

theorem add_new {id : RecordId} {vec : List F32} {status : Status}
    (added : index.add host id vec = .ok (status, after))
    (grew : index.nodes.length < after.nodes.length) :
    index.insertNode host id vec
      (host.randomTopLayer index.rngSeed index.maxNeighborsUpper index.drawn) = .ok after := by
  rw [add] at added
  split at added
  · cases added
    omega
  · split at added
    · next node _ =>
        cases held : access index.nodes node with
        | error fault =>
            rw [held] at added
            cases added
        | ok found =>
            rw [held] at added
            cases added
            rw [revive, List.length_set] at grew
            omega
    · cases inserted : index.insertNode host id vec
          (host.randomTopLayer index.rngSeed index.maxNeighborsUpper index.drawn) with
      | error fault =>
          rw [inserted] at added
          cases added
      | ok grown =>
          rw [inserted] at added
          cases added
          rfl

def sharedLayers (index : HnswIndex) (level : Nat) : Nat :=
  if index.entryPoint < 0 then 0 else (min (level : Int) index.maxLevel + 1).toNat

theorem WellFormed.shared_iff (wellFormed : index.WellFormed) (level layer : Nat) :
    layer < index.sharedLayers level ↔ layer ≤ level ∧ ∃ other, index.OnLayer layer other := by
  have layers := wellFormed.traversable.onLayer_iff layer
  by_cases empty : index.nodes = []
  · have negative : index.entryPoint < 0 := by
      rcases wellFormed.traversable.entry with negative | ⟨_, _, _, found, _⟩
      · exact negative
      · rw [empty] at found
        cases found
    have nobody : ¬ ∃ other, index.OnLayer layer other := by
      rintro ⟨other, there⟩
      have valid := there.valid
      rw [empty] at valid
      exact Nat.not_lt_zero _ valid
    simp [sharedLayers, negative, nobody]
  · obtain ⟨entry, held, isEntry, found, isMax, tallest⟩ := wellFormed.top empty
    have started : ¬ index.entryPoint < 0 := by omega
    have occupied : (∃ other, index.OnLayer layer other) ↔ layer ≤ held.topLayer := by
      constructor
      · rintro ⟨other, there⟩
        obtain ⟨node, inside, atMost⟩ := (layers other).mp there
        exact atMost.trans (tallest node (List.mem_of_getElem? inside))
      · intro atMost
        exact ⟨entry, (layers entry).mpr ⟨held, found, atMost⟩⟩
    rw [sharedLayers, if_neg started, occupied]
    omega

/-- From `layer` up, node `nodeId` is linked to the nearest of what was found there. -/
def LinkedUp (nodeId shared layer : Nat) (searched : List (List (D × Nat))) (now : HnswIndex) :
    Prop :=
  layer + searched.length = shared ∧
    ∀ above found, searched[above]? = some found → ∃ nearest rest,
      sortBy keyedLt found = nearest :: rest ∧ nearest.2 ∈ now.linked (layer + above) nodeId

theorem linkedUp_nil (nodeId shared : Nat) (now : HnswIndex) :
    LinkedUp nodeId shared shared ([] : List (List (D × Nat))) now :=
  ⟨Nat.add_zero _, fun _ _ held => nomatch held⟩

theorem LinkedUp.down {nodeId shared layer : Nat} {selected : List Nat} {found : List (D × Nat)}
    {searched : List (List (D × Nat))} {before after : HnswIndex}
    (linked : LinkedUp nodeId shared (layer + 1) searched before)
    (step : ConnectStep nodeId layer selected before after) (some_ : found ≠ [])
    (head : ∀ nearest rest, sortBy keyedLt found = nearest :: rest → nearest.2 ∈ selected) :
    LinkedUp nodeId shared layer (found :: searched) after := by
  rcases linked with ⟨layers, earlier⟩
  refine ⟨by rw [List.length_cons]; omega, ?_⟩
  intro above items held
  cases above with
  | zero =>
      rw [List.getElem?_cons_zero, Option.some.injEq] at held
      cases sorted : sortBy keyedLt found with
      | nil =>
          have lengths := length_sortBy keyedLt found
          rw [sorted] at lengths
          exact absurd (List.length_eq_zero_iff.mp lengths.symm) some_
      | cons nearest rest =>
          rw [← held, Nat.add_zero, step.own]
          exact ⟨nearest, rest, sorted, head nearest rest sorted⟩
  | succ above =>
      rw [List.getElem?_cons_succ] at held
      have untouched := step.elsewhere (layer + (above + 1)) nodeId (fun both => by omega)
      have shift : layer + 1 + above = layer + (above + 1) := by omega
      have old := earlier above items held
      rw [shift] at old
      rw [untouched]
      exact old

theorem insertNode_nearest (wellFormed : index.WellFormed)
    (room : ∀ layer, 1 ≤ index.maxNeighborsForLayer layer) (id : RecordId) (vec : List F32)
    (level : Nat) (inserted : index.insertNode host id vec level = .ok after) :
    ∃ searched, index.insertFound host id vec level = .ok searched ∧
      LinksNearest index after searched := by
  obtain ⟨connected, searched, result, recorded, rewired, _, layers, nearest⟩ :=
    insertFound_spec host wellFormed.traversable id vec level
      (LinkedUp index.nodes.length (index.sharedLayers level))
      (by
        intro negative
        rw [sharedLayers, if_pos negative]
        exact linkedUp_nil _ _ _)
      (by
        intro started
        rw [sharedLayers, if_neg started]
        exact linkedUp_nil _ _ _)
      (by
        intro layer selected found searched before after rewired step some_ head linked
        have limit : 1 ≤ before.maxNeighborsForLayer layer := by
          rw [rewired.limit]
          exact room layer
        exact linked.down step some_ (head limit))
  rw [inserted, Except.ok.injEq] at result
  have there : ∀ layer, after.OnLayer layer index.nodes.length ↔ layer ≤ level := by
    intro layer
    rw [result, crowned_onLayer, rewired.onLayer_iff, onLayer_appendNode]
    constructor
    · rintro (old | ⟨_, atMost⟩)
      · exact absurd old.valid (Nat.lt_irrefl _)
      · exact atMost
    · intro atMost
      exact Or.inr ⟨rfl, atMost⟩
  have shared : ∀ layer, layer < searched.length ↔
      after.OnLayer layer index.nodes.length ∧ ∃ other, index.OnLayer layer other := by
    intro layer
    rw [there, ← wellFormed.shared_iff level layer]
    omega
  have linked : ∀ layer found, searched[layer]? = some found → ∃ nearest rest,
      sortBy keyedLt found = nearest :: rest ∧
        nearest.2 ∈ after.linked layer index.nodes.length ∧
        ∀ {E : Type} [LinearOrder E] (rank : D → E), Ranks rank →
          ∀ other ∈ found, rank nearest.1 ≤ rank other.1 := by
    intro layer found held
    obtain ⟨least, rest, sorted, member⟩ := nearest layer found held
    rw [Nat.zero_add] at member
    rw [result, crowned_linked]
    exact ⟨least, rest, sorted, member, fun rank ranks => ranks.head_least sorted⟩
  exact ⟨searched, recorded, shared, linked⟩

variable {dimensionality : UInt32} {metric : DistanceMetric} {params : IndexParams}

/-- Doubling an accepted `m` wraps around from 2³¹ on, and then the limit of layer
0 is below that of the layers above. -/
theorem Configured.limits_iff (configured : index.Configured dimensionality metric params)
    (wellFormed : index.WellFormed) (accepted : 2 ≤ params.m.toNat) :
    index.maxNeighborsUpper.toNat ≤ index.maxNeighborsLayer0.toNat ↔
      params.m.toNat < 2 ^ 31 := by
  have large : ¬ params.m < 2 := by
    rw [UInt32.lt_iff_toNat_lt]
    exact not_lt.mpr accepted
  have upper : index.maxNeighborsUpper = params.m := by
    rw [configured.upper]
    simp only [new, if_neg large]
  have product : (params.m * 2).toNat = params.m.toNat * 2 % 2 ^ 32 := UInt32.toNat_mul _ _
  have word := params.m.toNat_lt
  rw [wellFormed.layer0, upper, product]
  omega

theorem Built.attached (built : Built host dimensionality metric params (fun _ => True) index)
    (accepted : 2 ≤ params.m.toNat) (small : params.m.toNat < 2 ^ 31) : index.Attached := by
  induction built with
  | new =>
      intro two
      exact absurd two (by simp [HnswIndex.new])
  | add id vec before added _ _ ih =>
      obtain ⟨wellFormed, configured⟩ := before.reached.wellFormed
      have limit := configured.limit wellFormed accepted small
      exact add_attached wellFormed ih (by omega) added
  | remove id before removed ih =>
      obtain ⟨length, lists⟩ := remove_lists before.reached.wellFormed.1.traversable removed
      intro two node inside
      rw [length] at two inside
      rw [lists]
      exact ih two node inside

/-- After any additions and removals, for every `m` that building an index accepts. -/
theorem built_wellLinked_iff
    (built : Built host dimensionality metric params (fun _ => True) index)
    (accepted : 2 ≤ params.m.toNat) :
    index.WellLinked host ↔ params.m.toNat < 2 ^ 31 := by
  obtain ⟨wellFormed, configured⟩ := built.reached.wellFormed
  have limits := configured.limits_iff wellFormed accepted
  constructor
  · intro linked
    exact limits.mp linked.limits
  · intro small
    have bottom := configured.limit wellFormed accepted small
    have room : ∀ layer, 1 ≤ index.maxNeighborsForLayer layer := by
      intro layer
      by_cases zero : layer = 0
      · rw [zero, bottom]
        omega
      · rw [maxNeighborsForLayer, if_neg zero]
        exact Nat.le_of_succ_le wellFormed.upper
    exact ⟨limits.mpr small, built.attached accepted small,
      fun id vec _ _ added grew => insertNode_nearest wellFormed room id vec _ (add_new added grew)⟩

end Links

theorem built_wellLinked_of_two_records : ∃ index : HnswIndex, index.nodes.length = 2 ∧
    (index.WellLinked (ExactLine.host []) ↔ (16 : UInt32).toNat < 2 ^ 31) := by
  have one : Built (ExactLine.host []) 1 .euclidean {} (fun _ => True) _ :=
    Built.add [97] [0] Built.new rfl (fun _ => trivial) (by decide)
  have two := Built.add [98] [5] one rfl (fun _ => trivial) (by decide)
  exact ⟨_, rfl, built_wellLinked_iff two (by decide)⟩

/-- For `m = 2 ^ 31` twice the limit is 0, and two records stay apart. -/
theorem wrapped_limit_links_nothing : ∃ index : HnswIndex,
    Built (ExactLine.host []) 1 .euclidean { m := 2 ^ 31 } (fun _ => True) index ∧
      index.nodes.length = 2 ∧ index.maxNeighborsUpper = 2 ^ 31 ∧ index.maxNeighborsLayer0 = 0 ∧
      index.linked 0 0 = [] ∧ index.linked 0 1 = [] ∧ ¬ index.WellLinked (ExactLine.host []) := by
  have one : Built (ExactLine.host []) 1 .euclidean { m := 2 ^ 31 } (fun _ => True) _ :=
    Built.add [97] [0] Built.new rfl (fun _ => trivial) (by decide)
  have two := Built.add [98] [5] one rfl (fun _ => trivial) (by decide)
  refine ⟨_, two, rfl, rfl, rfl, rfl, rfl, ?_⟩
  intro linked
  exact linked.attached (le_refl 2) 0 (by decide) rfl

end VectorVault.HnswIndex
