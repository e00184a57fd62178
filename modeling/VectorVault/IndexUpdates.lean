import VectorVault.HnswCanonical
import VectorVault.IndexMembership

/-! What the updates of an index do to its records when they come through.

The graph of an accepted file need not be one that a traversal gets through. An
update that does come through changes the records as it does on any other index. -/

namespace VectorVault

open FloatOrder

namespace HnswIndex

/-- What holds of the graph of any accepted file, whatever its edges are. -/
structure Consistent (index : HnswIndex) : Prop where
  sound : index.roster.Sound
  liveCount : index.liveCount = index.roster.liveCount
  tops : ∀ node ∈ index.nodes, node.topLayer < 2 ^ 31
  upper : 2 ≤ index.maxNeighborsUpper.toNat
  explores : 1 ≤ index.efConstruction.toNat

variable {index after : HnswIndex}

theorem WellFormed.consistent (wellFormed : index.WellFormed) : index.Consistent :=
  ⟨wellFormed.roster_sound, wellFormed.roster_liveCount, wellFormed.tops, wellFormed.upper,
    wellFormed.traversable.explores⟩

theorem distinct_of_sound (sound : index.roster.Sound) : index.Distinct := by
  intro first second a b foundA foundB same
  have numberA := (sound a.id first).mpr ⟨entryOf a, roster_get foundA, rfl⟩
  have numberB := (sound a.id second).mpr ⟨entryOf b, roster_get foundB, same.symm⟩
  rw [numberA] at numberB
  exact Option.some.inj numberB

theorem Consistent.writable (consistent : index.Consistent) : index.Writable :=
  ⟨distinct_of_sound consistent.sound, consistent.tops, consistent.upper, consistent.explores⟩

section Rewiring

variable {D : Type} [FloatOrder D] {host : Host D} {nodeId layer : Nat}

theorem link_rewired {other : Nat} (done : link host nodeId layer index other = .ok after) :
    Rewired index after := by
  unfold link at done
  split at done
  · cases done
    exact Rewired.refl index
  · obtain ⟨own, _, done⟩ := bind_ok done
    obtain ⟨otherList, _, done⟩ := bind_ok done
    obtain ⟨fitted, _, done⟩ := bind_ok done
    cases done
    exact (setAdjacency_rewired index nodeId layer (own ++ [other])).trans
      (setAdjacency_rewired _ other layer fitted)

theorem foldlM_link_rewired (selected : List Nat)
    (done : selected.foldlM (link host nodeId layer) index = .ok after) :
    Rewired index after := by
  induction selected generalizing index with
  | nil =>
      cases done
      exact Rewired.refl _
  | cons other rest ih =>
      rw [List.foldlM_cons] at done
      obtain ⟨middle, first, done⟩ := bind_ok done
      exact (link_rewired first).trans (ih done)

theorem connectNode_rewired {candidates : List (D × Nat)}
    (done : index.connectNode host nodeId candidates layer = .ok after) : Rewired index after := by
  obtain ⟨selected, _, done⟩ := bind_ok done
  obtain ⟨_, _, done⟩ := bind_ok done
  exact foldlM_link_rewired selected done

theorem connectLayers_rewired {q : List F32} (layers : Nat) {current : Nat}
    (done : connectLayers host q nodeId layers index current = .ok after) :
    Rewired index after := by
  induction layers generalizing index current with
  | zero =>
      cases done
      exact Rewired.refl _
  | succ layer ih =>
      obtain ⟨found, _, done⟩ := bind_ok done
      obtain ⟨connected, step, done⟩ := bind_ok done
      exact (connectNode_rewired step).trans (ih done)

theorem insertNode_ok {id : RecordId} {vec : List F32} {level : Nat}
    (done : index.insertNode host id vec level = .ok after) :
    ∃ connected, Rewired (index.appendNode id vec level) connected ∧
      after = connected.crowned index.nodes.length level := by
  unfold insertNode at done
  simp only at done
  split at done
  · next negative =>
      cases done
      exact ⟨_, Rewired.refl _, by rw [crowned, if_pos (Or.inl negative)]⟩
  · next started =>
      obtain ⟨current, _, done⟩ := bind_ok done
      obtain ⟨connected, linkedAll, done⟩ := bind_ok done
      have rewired := connectLayers_rewired _ linkedAll
      have startedToo : ¬ connected.entryPoint < 0 := by
        rw [rewired.rest]
        exact started
      refine ⟨connected, rewired, ?_⟩
      rw [crowned]
      split at done
      · next taller =>
          rw [if_pos (Or.inr taller)]
          exact (Except.ok.inj done).symm
      · next lower =>
          rw [if_neg (not_or.mpr ⟨startedToo, lower⟩)]
          exact (Except.ok.inj done).symm

end Rewiring

section Insertion

variable {connected : HnswIndex} {id : RecordId} {vec : List F32} {level : Nat}

theorem crowned_settings (index : HnswIndex) (nodeId level : Nat) :
    (index.crowned nodeId level).settings = index.settings := by
  unfold crowned
  split <;> rfl

theorem crowned_liveCount (index : HnswIndex) (nodeId level : Nat) :
    (index.crowned nodeId level).liveCount = index.liveCount := by
  unfold crowned
  split <;> rfl

theorem inserted_settings (rewired : Rewired (index.appendNode id vec level) connected) :
    (connected.crowned index.nodes.length level).settings = index.settings := by
  calc (connected.crowned index.nodes.length level).settings
      = connected.settings := crowned_settings _ _ _
    _ = (index.appendNode id vec level).settings := by
        rw [rewired.rest]
        rfl
    _ = index.settings := rfl

theorem inserted_tops (consistent : index.Consistent) (small : level < 2 ^ 31)
    (rewired : Rewired (index.appendNode id vec level) connected) :
    ∀ node ∈ (connected.crowned index.nodes.length level).nodes, node.topLayer < 2 ^ 31 := by
  rw [crowned_nodes]
  intro node member
  obtain ⟨number, found⟩ := List.getElem?_of_mem member
  obtain ⟨old, there, same⟩ := rewired.node_before found
  have top : node.topLayer = old.topLayer := congrArg (fun parts => parts.2.2.1) same
  rw [appendNode_get] at there
  split at there
  · cases there
    rw [top]
    exact small
  · rw [top]
    exact consistent.tops old (List.mem_of_getElem? there)

theorem Consistent.inserted (consistent : index.Consistent) (small : level < 2 ^ 31)
    (absent : index.idToInternal.find? id = none)
    (rewired : Rewired (index.appendNode id vec level) connected) :
    (connected.crowned index.nodes.length level).Consistent := by
  have settings := inserted_settings rewired
  have upper : (connected.crowned index.nodes.length level).maxNeighborsUpper =
      index.maxNeighborsUpper := congrArg (fun parts => parts.2.2.1) settings
  have explores : (connected.crowned index.nodes.length level).efConstruction =
      index.efConstruction := congrArg (fun parts => parts.2.2.2.2.1) settings
  have roster := roster_crowned rewired index.nodes.length
  have counted : (connected.crowned index.nodes.length level).liveCount =
      index.liveCount + 1 := by
    rw [crowned_liveCount, rewired.rest]
    rfl
  constructor
  · rw [roster]
    exact consistent.sound.append ⟨id, vec, false⟩ absent
  · rw [roster, counted, consistent.liveCount]
    simp [Roster.liveCount, Roster.Live]
  · exact inserted_tops consistent small rewired
  · rw [upper]
    exact consistent.upper
  · rw [explores]
    exact consistent.explores

end Insertion

section Replacement

variable {number : Nat} {held : HnswNode}

theorem Consistent.set (consistent : index.Consistent) (new : HnswNode)
    (found : index.nodes[number]? = some held) (named : new.id = held.id)
    (top : new.topLayer = held.topLayer) (count : Nat)
    (counted : count + (if held.deleted then 0 else 1) =
      index.liveCount + (if new.deleted then 0 else 1)) :
    Consistent { index with nodes := index.nodes.set number new, liveCount := count } := by
  have roster := @roster_set index number new count
  have entries : (index.roster.entries.set number (entryOf new)).countP Roster.Live +
      (if held.deleted then 0 else 1) =
        index.roster.entries.countP Roster.Live + (if new.deleted then 0 else 1) :=
    IvfIndex.countP_set (entryOf new) (roster_get found)
  have before := consistent.liveCount
  constructor
  · rw [roster]
    exact consistent.sound.set (roster_get found) named
  · rw [roster]
    change count = (index.roster.entries.set number (entryOf new)).countP Roster.Live
    simp only [Roster.liveCount] at before
    omega
  · intro node member
    rcases List.mem_or_eq_of_mem_set member with old | same
    · exact consistent.tops node old
    · rw [same, top]
      exact consistent.tops held (List.mem_of_getElem? found)
  · exact consistent.upper
  · exact consistent.explores

theorem Consistent.named (consistent : index.Consistent) {id : RecordId}
    (known : index.idToInternal.find? id = some number)
    (found : index.nodes[number]? = some held) : held.id = id := by
  obtain ⟨entry, there, named⟩ := (consistent.sound id number).mp known
  rw [roster_get found, Option.some.injEq] at there
  rw [← there] at named
  exact named

theorem access_ok {A : Type} {items : List A} {position : Nat} {item : A}
    (read : access items position = .ok item) : items[position]? = some item := by
  unfold access at read
  split at read
  · next found =>
      cases read
      exact found
  · cases read

end Replacement

section Updates

variable {D : Type} [FloatOrder D] {host : Host D} {id : RecordId} {vec : List F32}
  {status : Status}

theorem Consistent.add (consistent : index.Consistent) (named : id ≠ [])
    (sized : vec.length = index.dimensionality.toNat)
    (added : index.add host id vec = .ok (status, after)) :
    status = .ok () ∧ after.Consistent ∧ after.settings = index.settings ∧
      ∀ other, after.roster.vectorOf other =
        if other = id then some vec else index.roster.vectorOf other := by
  unfold HnswIndex.add at added
  rw [rejectAdd_valid named sized] at added
  cases known : index.idToInternal.find? id with
  | some number =>
      simp only [known] at added
      obtain ⟨held, read, done⟩ := bind_ok added
      cases done
      have found := access_ok read
      have isId := consistent.named known found
      have kept : (index.revive number held vec).Consistent := by
        apply consistent.set { held with vector := vec, deleted := false } found rfl rfl
        cases held.deleted <;> simp
      refine ⟨rfl, kept, rfl, fun other => ?_⟩
      rw [revive, roster_set, consistent.sound.set_vectorOf (roster_get found)]
      simp only [entryOf, isId, Bool.false_eq_true, if_false]
  | none =>
      simp only [known] at added
      obtain ⟨inserted, grown, done⟩ := bind_ok added
      cases done
      obtain ⟨connected, rewired, isInserted⟩ := insertNode_ok grown
      rw [isInserted]
      refine ⟨rfl, consistent.inserted (host.randomTopLayer_lt _ _ _) known rewired,
        inserted_settings rewired, fun other => ?_⟩
      rw [roster_crowned rewired]
      exact consistent.sound.append_vectorOf ⟨id, vec, false⟩ known other

theorem Consistent.remove (consistent : index.Consistent)
    (removed : index.remove id = .ok (status, after)) :
    (∀ vec, index.roster.vectorOf id = some vec → status = .ok ()) ∧ after.Consistent ∧
      after.settings = index.settings ∧
      ∀ other, after.roster.vectorOf other =
        if other = id then none else index.roster.vectorOf other := by
  unfold HnswIndex.remove at removed
  -- A removal that is refused is one of a record that is not live.
  have refused : index.roster.vectorOf id = none → after = index →
      (∀ vec, index.roster.vectorOf id = some vec → status = .ok ()) ∧ after.Consistent ∧
        after.settings = index.settings ∧
        ∀ other, after.roster.vectorOf other =
          if other = id then none else index.roster.vectorOf other := by
    intro dead same
    rw [same]
    refine ⟨fun vec live => ?_, consistent, rfl, fun other => ?_⟩
    · rw [dead] at live
      cases live
    · by_cases here : other = id
      · rw [if_pos here, here, dead]
      · rw [if_neg here]
  cases known : index.idToInternal.find? id with
  | none =>
      simp only [known] at removed
      cases removed
      apply refused _ rfl
      simp only [Roster.vectorOf, HnswIndex.roster, known, Option.bind_none]
  | some number =>
      simp only [known] at removed
      obtain ⟨held, read, removed⟩ := bind_ok removed
      have found := access_ok read
      split at removed
      · next gone =>
          cases removed
          apply refused _ rfl
          have entry := roster_get found
          simp only [Roster.vectorOf, show index.roster.directory = index.idToInternal from rfl,
            known, Option.bind_some, entry, entryOf, gone, if_true]
      · next alive =>
          cases removed
          have isId := consistent.named known found
          have live : held.deleted = false := Bool.eq_false_of_not_eq_true alive
          have counted : 1 ≤ index.liveCount := by
            rw [consistent.liveCount]
            exact List.countP_pos_iff.mpr ⟨entryOf held, List.mem_of_getElem? (roster_get found),
              by simp [Roster.Live, entryOf, live]⟩
          have kept : (index.tombstone number held).Consistent := by
            apply consistent.set { held with deleted := true } found rfl rfl
            simp only [live, Bool.false_eq_true, if_false, if_true]
            omega
          refine ⟨fun _ _ => rfl, kept, rfl, fun other => ?_⟩
          rw [tombstone, roster_set, consistent.sound.set_vectorOf (roster_get found)]
          simp only [entryOf, isId, if_true]

end Updates

end HnswIndex

namespace IvfIndex

theorem remove_refused {index : IvfIndex} {id : RecordId} (sound : index.roster.Sound)
    (dead : index.roster.vectorOf id = none) :
    ∃ error, index.remove id = .ok (.error error, index) := by
  cases known : index.idToIndex.find? id with
  | none => exact ⟨HnswIndex.noRecord id, by simp only [remove, known]; rfl⟩
  | some slot =>
      obtain ⟨held, found, _⟩ := (sound id slot).mp known
      have gone : held.deleted = true := by
        by_contra alive
        have live : held.deleted = false := Bool.eq_false_of_not_eq_true alive
        simp [Roster.vectorOf, show index.roster.directory = index.idToIndex from rfl, known, found,
          live] at dead
      refine ⟨HnswIndex.noLiveRecord id, ?_⟩
      rw [show index.roster.entries = index.entries from rfl] at found
      simp only [remove, known, access, found, bind, Except.bind, gone, if_true]
      rfl

end IvfIndex

namespace Index

/-- The table, the directory and the counter agree, for either type of index. -/
def ConsistentTable : Index → Prop
  | .hnsw index => index.Consistent
  | .ivf index => index.WellFormed

structure Consistent (dimensionality : UInt32) (index : Index) : Prop where
  table : index.ConsistentTable
  dimensionality : index.dimensionality = dimensionality

variable {dimensionality : UInt32} {metric : DistanceMetric} {index after : Index}

theorem Sound.consistent (sound : index.Sound dimensionality metric) :
    index.Consistent dimensionality := by
  cases index with
  | hnsw index =>
      exact ⟨HnswIndex.WellFormed.consistent sound.wellFormed, sound.dimensionality⟩
  | ivf index => exact ⟨sound.wellFormed, sound.dimensionality⟩

theorem Consistent.roster (consistent : index.Consistent dimensionality) : index.roster.Sound := by
  cases index with
  | hnsw index => exact HnswIndex.Consistent.sound consistent.table
  | ivf index => exact IvfIndex.WellFormed.sound consistent.table

theorem Consistent.size (consistent : index.Consistent dimensionality) :
    index.size = index.roster.liveCount := by
  cases index with
  | hnsw index => exact HnswIndex.Consistent.liveCount consistent.table
  | ivf index => exact IvfIndex.WellFormed.liveCount consistent.table

section Operations

variable {D : Type} [FloatOrder D] {host : Host D} {id : RecordId} {vec : List F32}
  {status : Status}

theorem Consistent.add (consistent : index.Consistent dimensionality) (named : id ≠ [])
    (sized : vec.length = dimensionality.toNat)
    (added : index.add host id vec = .ok (status, after)) :
    status = .ok () ∧ after.Consistent dimensionality ∧ after.type = index.type ∧
      ∀ other, after.roster.vectorOf other =
        if other = id then some vec else index.roster.vectorOf other := by
  rw [← consistent.dimensionality] at sized
  cases index with
  | hnsw index =>
      obtain ⟨⟨_, next⟩, inner, done⟩ := bind_ok added
      cases done
      obtain ⟨succeeded, kept, settings, vectors⟩ :=
        HnswIndex.Consistent.add consistent.table named sized inner
      have dimensions := (congrArg Prod.fst settings).trans consistent.dimensionality
      exact ⟨succeeded, ⟨kept, dimensions⟩, rfl, vectors⟩
  | ivf index =>
      obtain ⟨⟨_, next⟩, inner, done⟩ := bind_ok added
      cases done
      obtain ⟨grown, total, kept, settings, vectors⟩ :=
        IvfIndex.WellFormed.add_roster consistent.table named sized
      rw [total] at inner
      cases inner
      have dimensions := (congrArg Prod.fst settings).trans consistent.dimensionality
      exact ⟨rfl, ⟨kept, dimensions⟩, rfl, vectors⟩

theorem Consistent.remove (consistent : index.Consistent dimensionality)
    (removed : index.remove id = .ok (status, after)) :
    (∀ vec, index.roster.vectorOf id = some vec → status = .ok ()) ∧
      after.Consistent dimensionality ∧ after.type = index.type ∧
      ∀ other, after.roster.vectorOf other =
        if other = id then none else index.roster.vectorOf other := by
  cases index with
  | hnsw index =>
      obtain ⟨⟨_, next⟩, inner, done⟩ := bind_ok removed
      cases done
      obtain ⟨succeeds, kept, settings, vectors⟩ :=
        HnswIndex.Consistent.remove consistent.table inner
      have dimensions := (congrArg Prod.fst settings).trans consistent.dimensionality
      exact ⟨succeeds, ⟨kept, dimensions⟩, rfl, vectors⟩
  | ivf index =>
      obtain ⟨⟨_, next⟩, inner, done⟩ := bind_ok removed
      cases done
      cases live : index.roster.vectorOf id with
      | none =>
          obtain ⟨error, refused⟩ := IvfIndex.remove_refused
            (IvfIndex.WellFormed.sound consistent.table) live
          rw [refused] at inner
          cases inner
          refine ⟨fun vec held => ?_, consistent, rfl, fun other => ?_⟩
          · rw [show (Index.ivf index).roster = index.roster from rfl, live] at held
            cases held
          · by_cases here : other = id
            · rw [if_pos here, here]
              exact live
            · rw [if_neg here]
      | some vec =>
          obtain ⟨shrunk, total, kept, settings, vectors⟩ :=
            IvfIndex.WellFormed.remove_roster consistent.table live
          rw [total] at inner
          cases inner
          have dimensions := (congrArg Prod.fst settings).trans consistent.dimensionality
          exact ⟨fun _ _ => rfl, ⟨kept, dimensions⟩, rfl, vectors⟩

theorem Consistent.search (consistent : index.Consistent dimensionality) {q : List F32}
    {k : UInt32} {params : QueryParams} {candidates : List (Candidate D)}
    (searched : index.search host q k params = .ok (candidates, after)) :
    after.Consistent dimensionality ∧ after.type = index.type ∧
      after.roster = index.roster := by
  cases index with
  | hnsw index =>
      obtain ⟨_, _, done⟩ := bind_ok searched
      cases done
      exact ⟨consistent, rfl, rfl⟩
  | ivf index =>
      obtain ⟨⟨found, next⟩, inner, done⟩ := bind_ok searched
      cases done
      obtain ⟨roster, settings, count⟩ := IvfIndex.search_rest host inner
      have before : index.WellFormed := consistent.table
      have wellFormed : next.WellFormed := by
        constructor
        · rw [roster]
          exact before.sound
        · rw [count, roster]
          exact before.liveCount
      have dimensions := (congrArg Prod.fst settings).trans consistent.dimensionality
      exact ⟨⟨wellFormed, dimensions⟩, rfl, roster⟩

end Operations

end Index

end VectorVault
