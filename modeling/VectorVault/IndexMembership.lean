import VectorVault.Index

/-! What an index holds after an addition or a removal. -/

namespace VectorVault

open FloatOrder

namespace HnswIndex

def entryOf (node : HnswNode) : IvfEntry := ⟨node.id, node.vector, node.deleted⟩

def roster (index : HnswIndex) : Roster := ⟨index.nodes.map entryOf, index.idToInternal⟩

variable {index : HnswIndex}

theorem roster_get {slot : Nat} {held : HnswNode} (found : index.nodes[slot]? = some held) :
    index.roster.entries[slot]? = some (entryOf held) := by
  rw [roster, List.getElem?_map, found]
  rfl

theorem WellFormed.roster_sound (wellFormed : index.WellFormed) : index.roster.Sound := by
  intro id slot
  rw [roster, wellFormed.directory id slot]
  simp only [List.getElem?_map, Option.map_eq_some_iff]
  constructor
  · intro there
    obtain ⟨held, found, named⟩ := there
    exact ⟨entryOf held, ⟨held, found, rfl⟩, named⟩
  · intro there
    obtain ⟨entry, ⟨held, found, same⟩, named⟩ := there
    exact ⟨held, found, by rw [← named, ← same]; rfl⟩

theorem WellFormed.roster_liveCount (wellFormed : index.WellFormed) :
    index.liveCount = index.roster.liveCount := by
  rw [wellFormed.liveCount, Roster.liveCount, roster, List.countP_map]
  rfl

theorem roster_set {index : HnswIndex} (slot : Nat) (new : HnswNode) (count : Nat) :
    roster { index with nodes := index.nodes.set slot new, liveCount := count } =
      ⟨index.roster.entries.set slot (entryOf new), index.roster.directory⟩ := by
  simp only [roster, List.map_set]

theorem roster_crowned {connected : HnswIndex} {id : RecordId} {vec : List F32} {level : Nat}
    (rewired : Rewired (index.appendNode id vec level) connected) (node : Nat) :
    (connected.crowned node level).roster =
      ⟨index.roster.entries ++ [⟨id, vec, false⟩],
        index.roster.directory.emplace id index.roster.entries.length⟩ := by
  have table : (connected.crowned node level).idToInternal =
      index.idToInternal.emplace id index.nodes.length := by
    have same : connected.idToInternal = index.idToInternal.emplace id index.nodes.length := by
      rw [rewired.rest]
      rfl
    unfold crowned
    split <;> exact same
  have framed : ∀ nodes : List HnswNode, nodes.map entryOf =
      (nodes.map frame).map (fun parts => ⟨parts.1, parts.2.1, parts.2.2.2.1⟩) := by
    intro nodes
    rw [List.map_map]
    rfl
  have entries : connected.nodes.map entryOf = index.nodes.map entryOf ++ [⟨id, vec, false⟩] := by
    rw [framed, rewired.frames, ← framed]
    simp [appendNode, entryOf]
  rw [roster, crowned_nodes, table, entries, roster, List.length_map]

variable {D : Type} [FloatOrder D] (host : Host D)

theorem rejectAdd_valid {dimensionality : UInt32} {id : RecordId} {vec : List F32}
    (named : id ≠ []) (sized : vec.length = dimensionality.toNat) :
    rejectAdd dimensionality id vec = none := by
  rw [rejectAdd, if_neg named, if_neg (not_not.mpr sized)]

theorem WellFormed.add_roster (wellFormed : index.WellFormed) {id : RecordId} {vec : List F32}
    (named : id ≠ []) (sized : vec.length = index.dimensionality.toNat) :
    ∃ after, index.add host id vec = .ok (.ok (), after) ∧ after.WellFormed ∧
      after.settings = index.settings ∧
      ∀ other, after.roster.vectorOf other =
        if other = id then some vec else index.roster.vectorOf other := by
  have accepted := rejectAdd_valid named sized
  have sound := wellFormed.roster_sound
  obtain ⟨status, after, result, cases_⟩ := add_spec host wellFormed.traversable id vec
    (fun _ _ => True) (fun _ _ => trivial) (fun _ _ => trivial) (fun _ _ _ _ _ _ _ _ => trivial)
  obtain ⟨_, _, sameResult, kept⟩ := add_wellFormed host wellFormed id vec
  have settings := add_settings host wellFormed.traversable result
  rw [result] at sameResult
  cases sameResult
  rcases cases_ with ⟨error, refused, _⟩ | ⟨_, ok, revived | inserted⟩
  · rw [accepted] at refused
    cases refused
  · obtain ⟨slot, held, known, found, same⟩ := revived
    have isId : held.id = id := by
      obtain ⟨other, there, otherNamed⟩ := (wellFormed.directory id slot).mp known
      rw [found, Option.some.injEq] at there
      rw [there]
      exact otherNamed
    refine ⟨after, by rw [result, ok], kept, settings, fun other => ?_⟩
    rw [same, revive, roster_set, sound.set_vectorOf (roster_get found)]
    simp only [entryOf, isId, Bool.false_eq_true, if_false]
  · obtain ⟨absent, level, connected, _, rewired, _, _, same⟩ := inserted
    refine ⟨after, by rw [result, ok], kept, settings, fun other => ?_⟩
    rw [same, roster_crowned rewired]
    exact sound.append_vectorOf ⟨id, vec, false⟩ absent other

theorem WellFormed.remove_roster (wellFormed : index.WellFormed) {id : RecordId} {vec : List F32}
    (live : index.roster.vectorOf id = some vec) :
    ∃ after, index.remove id = .ok (.ok (), after) ∧ after.WellFormed ∧
      after.settings = index.settings ∧
      ∀ other, after.roster.vectorOf other =
        if other = id then none else index.roster.vectorOf other := by
  have sound := wellFormed.roster_sound
  obtain ⟨status, after, result, cases_⟩ := remove_spec wellFormed.traversable id
  obtain ⟨_, _, sameResult, kept⟩ := remove_wellFormed wellFormed id
  have settings := (remove_settings wellFormed.traversable result).1
  rw [result] at sameResult
  cases sameResult
  obtain ⟨slot, known, live⟩ := Option.bind_eq_some_iff.mp live
  rcases cases_ with ⟨unknown, _, _⟩ | ⟨other, held, knownToo, found, gone | alive⟩
  · rw [show index.roster.directory = index.idToInternal from rfl, unknown] at known
    cases known
  · rw [show index.roster.directory = index.idToInternal from rfl, knownToo,
      Option.some.injEq] at known
    rw [← known, roster_get found] at live
    simp [entryOf, gone.1] at live
  · obtain ⟨_, ok, same⟩ := alive
    have isId : held.id = id := by
      obtain ⟨node, there, named⟩ := (wellFormed.directory id other).mp knownToo
      rw [found, Option.some.injEq] at there
      rw [there]
      exact named
    refine ⟨after, by rw [result, ok], kept, settings, fun query => ?_⟩
    rw [same, tombstone, roster_set, sound.set_vectorOf (roster_get found)]
    simp only [entryOf, isId, if_true]

end HnswIndex

namespace IvfIndex

def roster (index : IvfIndex) : Roster := ⟨index.entries, index.idToIndex⟩

structure WellFormed (index : IvfIndex) : Prop where
  sound : index.roster.Sound
  liveCount : index.liveCount = index.roster.liveCount

def settings (index : IvfIndex) : UInt32 × DistanceMetric × UInt32 × UInt64 :=
  (index.dimensionality, index.metric, index.requestedNlist, index.seed)

theorem new_wellFormed (dimensionality : UInt32) (metric : DistanceMetric) (params : IndexParams) :
    (new dimensionality metric params).WellFormed := by
  constructor
  · intro id slot
    simp [roster, new]
  · rfl

variable {index : IvfIndex}

theorem countP_set {entries : List IvfEntry} {slot : Nat} {held : IvfEntry} (new : IvfEntry)
    (found : entries[slot]? = some held) :
    (entries.set slot new).countP Roster.Live + (if held.deleted then 0 else 1) =
      entries.countP Roster.Live + (if new.deleted then 0 else 1) := by
  obtain ⟨inside, isHeld⟩ := List.getElem?_eq_some_iff.mp found
  have counted := List.countP_set (p := Roster.Live) (a := new) inside
  rw [isHeld] at counted
  have atLeast : held.deleted = false → 1 ≤ entries.countP Roster.Live := by
    intro live
    exact List.countP_pos_iff.mpr ⟨held, List.mem_of_getElem? found, by simp [Roster.Live, live]⟩
  cases oldFlag : held.deleted <;> cases newFlag : new.deleted <;>
    simp_all [Roster.Live]

theorem held_of (wellFormed : index.WellFormed) {id : RecordId} {slot : Nat}
    (known : index.idToIndex.find? id = some slot) :
    ∃ held, index.entries[slot]? = some held ∧ held.id = id :=
  (wellFormed.sound id slot).mp known

theorem WellFormed.add_roster (wellFormed : index.WellFormed) {id : RecordId} {vec : List F32}
    (named : id ≠ []) (sized : vec.length = index.dimensionality.toNat) :
    ∃ after, index.add id vec = .ok (.ok (), after) ∧ after.WellFormed ∧
      after.settings = index.settings ∧
      ∀ other, after.roster.vectorOf other =
        if other = id then some vec else index.roster.vectorOf other := by
  have accepted := HnswIndex.rejectAdd_valid named sized
  cases known : index.idToIndex.find? id with
  | some slot =>
      obtain ⟨held, found, isId⟩ := held_of wellFormed known
      have result : index.add id vec = .ok (.ok (), index.revive slot held vec) := by
        simp only [add, accepted, known, access, found]
        rfl
      have count : (index.revive slot held vec).liveCount =
          (index.revive slot held vec).roster.liveCount := by
        have counted := countP_set { held with vector := vec, deleted := false } found
        have before := wellFormed.liveCount
        simp only [roster, Roster.liveCount, revive, Bool.false_eq_true, if_false] at counted before ⊢
        cases flag : held.deleted with
        | true =>
            simp only [flag, if_true] at counted ⊢
            omega
        | false =>
            simp only [flag, Bool.false_eq_true, if_false] at counted ⊢
            omega
      refine ⟨_, result, ⟨wellFormed.sound.set found rfl, count⟩, rfl, fun other => ?_⟩
      rw [show (index.revive slot held vec).roster =
        ⟨index.roster.entries.set slot { held with vector := vec, deleted := false },
          index.roster.directory⟩ from rfl, wellFormed.sound.set_vectorOf found]
      simp only [isId, Bool.false_eq_true, if_false]
  | none =>
      have result : index.add id vec = .ok (.ok (), index.append id vec) := by
        simp only [add, accepted, known]
        rfl
      have count : (index.append id vec).liveCount = (index.append id vec).roster.liveCount := by
        have before := wellFormed.liveCount
        simp only [roster, Roster.liveCount] at before
        simp [roster, Roster.liveCount, append, Roster.Live, before]
      refine ⟨_, result, ⟨wellFormed.sound.append ⟨id, vec, false⟩ known, count⟩, rfl,
        fun other => ?_⟩
      exact wellFormed.sound.append_vectorOf ⟨id, vec, false⟩ known other

theorem WellFormed.remove_roster (wellFormed : index.WellFormed) {id : RecordId} {vec : List F32}
    (live : index.roster.vectorOf id = some vec) :
    ∃ after, index.remove id = .ok (.ok (), after) ∧ after.WellFormed ∧
      after.settings = index.settings ∧
      ∀ other, after.roster.vectorOf other =
        if other = id then none else index.roster.vectorOf other := by
  obtain ⟨slot, known, live⟩ := Option.bind_eq_some_iff.mp live
  obtain ⟨held, found, isId⟩ := held_of wellFormed known
  have alive : held.deleted = false := by
    cases flag : held.deleted with
    | false => rfl
    | true =>
        rw [show index.roster.entries[slot]? = some held from found] at live
        simp [flag] at live
  have result : index.remove id = .ok (.ok (), index.tombstone slot held) := by
    rw [show index.roster.directory = index.idToIndex from rfl] at known
    simp only [remove, known, access, found, bind, Except.bind, alive, Bool.false_eq_true, if_false]
    rfl
  have count : (index.tombstone slot held).liveCount = (index.tombstone slot held).roster.liveCount := by
    have counted := countP_set { held with deleted := true } found
    have before := wellFormed.liveCount
    simp only [alive, Bool.false_eq_true, if_false, if_true] at counted
    simp only [roster, Roster.liveCount, tombstone] at counted before ⊢
    omega
  refine ⟨_, result, ⟨wellFormed.sound.set found rfl, count⟩, rfl, fun other => ?_⟩
  rw [show (index.tombstone slot held).roster =
    ⟨index.roster.entries.set slot { held with deleted := true }, index.roster.directory⟩ from rfl,
    wellFormed.sound.set_vectorOf found]
  simp only [isId, if_true]

theorem ensurePartitionsBuilt_rest {D : Type} [FloatOrder D] (host : Host D) {built : IvfIndex}
    (done : index.ensurePartitionsBuilt host = .ok built) :
    built.roster = index.roster ∧ built.settings = index.settings ∧
      built.liveCount = index.liveCount := by
  unfold ensurePartitionsBuilt at done
  split at done
  · rw [← Except.ok.inj done]
    exact ⟨rfl, rfl, rfl⟩
  · simp only at done
    split at done
    · rw [← Except.ok.inj done]
      exact ⟨rfl, rfl, rfl⟩
    · obtain ⟨_, _, done⟩ := bind_ok done
      obtain ⟨_, _, done⟩ := bind_ok done
      obtain ⟨_, _, done⟩ := bind_ok done
      rw [← Except.ok.inj done]
      exact ⟨rfl, rfl, rfl⟩

theorem search_rest {D : Type} [FloatOrder D] (host : Host D) {q : List F32} {k : UInt32}
    {params : QueryParams} {candidates : List (Candidate D)} {after : IvfIndex}
    (searched : index.search host q k params = .ok (candidates, after)) :
    after.roster = index.roster ∧ after.settings = index.settings ∧
      after.liveCount = index.liveCount := by
  unfold search at searched
  split at searched
  · cases searched
    exact ⟨rfl, rfl, rfl⟩
  · obtain ⟨built, done, searched⟩ := bind_ok searched
    have kept := ensurePartitionsBuilt_rest host done
    split at searched
    · cases searched
      exact kept
    · obtain ⟨_, _, searched⟩ := bind_ok searched
      cases searched
      exact kept

end IvfIndex

namespace Index

def roster : Index → Roster
  | .hnsw index => index.roster
  | .ivf index => index.roster

def dimensionality : Index → UInt32
  | .hnsw index => index.dimensionality
  | .ivf index => index.dimensionality

def metric : Index → DistanceMetric
  | .hnsw index => index.metric
  | .ivf index => index.metric

def WellFormed : Index → Prop
  | .hnsw index => index.WellFormed
  | .ivf index => index.WellFormed

structure Sound (dimensionality : UInt32) (metric : DistanceMetric) (index : Index) : Prop where
  wellFormed : index.WellFormed
  dimensionality : index.dimensionality = dimensionality
  metric : index.metric = metric

variable {dimensionality : UInt32} {metric : DistanceMetric} {index : Index}

theorem Sound.roster (sound : index.Sound dimensionality metric) : index.roster.Sound := by
  cases index with
  | hnsw index => exact HnswIndex.WellFormed.roster_sound sound.wellFormed
  | ivf index => exact IvfIndex.WellFormed.sound sound.wellFormed

section Operations

variable {D : Type} [FloatOrder D] (host : Host D)

theorem Sound.add (sound : index.Sound dimensionality metric) {id : RecordId} {vec : List F32}
    (named : id ≠ []) (sized : vec.length = dimensionality.toNat) :
    ∃ after, index.add host id vec = .ok (.ok (), after) ∧ after.Sound dimensionality metric ∧
      after.type = index.type ∧ ∀ other, after.roster.vectorOf other =
        if other = id then some vec else index.roster.vectorOf other := by
  rw [← sound.dimensionality] at sized
  cases index with
  | hnsw index =>
      obtain ⟨after, added, kept, settings, vectors⟩ :=
        HnswIndex.WellFormed.add_roster host sound.wellFormed named sized
      have result : Index.add host (.hnsw index) id vec = .ok (.ok (), .hnsw after) := by
        simp only [Index.add, added]
        rfl
      have dimensions := (congrArg Prod.fst settings).trans sound.dimensionality
      have metrics := (congrArg (fun parts => parts.2.1) settings).trans sound.metric
      exact ⟨.hnsw after, result, ⟨kept, dimensions, metrics⟩, rfl, vectors⟩
  | ivf index =>
      obtain ⟨after, added, kept, settings, vectors⟩ :=
        IvfIndex.WellFormed.add_roster sound.wellFormed named sized
      have result : Index.add host (.ivf index) id vec = .ok (.ok (), .ivf after) := by
        simp only [Index.add, added]
        rfl
      have dimensions := (congrArg Prod.fst settings).trans sound.dimensionality
      have metrics := (congrArg (fun parts => parts.2.1) settings).trans sound.metric
      exact ⟨.ivf after, result, ⟨kept, dimensions, metrics⟩, rfl, vectors⟩

theorem Sound.remove (sound : index.Sound dimensionality metric) {id : RecordId} {vec : List F32}
    (live : index.roster.vectorOf id = some vec) :
    ∃ after, index.remove id = .ok (.ok (), after) ∧ after.Sound dimensionality metric ∧
      after.type = index.type ∧ ∀ other, after.roster.vectorOf other =
        if other = id then none else index.roster.vectorOf other := by
  cases index with
  | hnsw index =>
      obtain ⟨after, removed, kept, settings, vectors⟩ :=
        HnswIndex.WellFormed.remove_roster sound.wellFormed live
      have result : Index.remove (.hnsw index) id = .ok (.ok (), .hnsw after) := by
        simp only [Index.remove, removed]
        rfl
      have dimensions := (congrArg Prod.fst settings).trans sound.dimensionality
      have metrics := (congrArg (fun parts => parts.2.1) settings).trans sound.metric
      exact ⟨.hnsw after, result, ⟨kept, dimensions, metrics⟩, rfl, vectors⟩
  | ivf index =>
      obtain ⟨after, removed, kept, settings, vectors⟩ :=
        IvfIndex.WellFormed.remove_roster sound.wellFormed live
      have result : Index.remove (.ivf index) id = .ok (.ok (), .ivf after) := by
        simp only [Index.remove, removed]
        rfl
      have dimensions := (congrArg Prod.fst settings).trans sound.dimensionality
      have metrics := (congrArg (fun parts => parts.2.1) settings).trans sound.metric
      exact ⟨.ivf after, result, ⟨kept, dimensions, metrics⟩, rfl, vectors⟩

theorem Sound.search (sound : index.Sound dimensionality metric) {q : List F32} {k : UInt32}
    {params : QueryParams} {candidates : List (Candidate D)} {after : Index}
    (searched : index.search host q k params = .ok (candidates, after)) :
    after.Sound dimensionality metric ∧ after.type = index.type ∧ after.roster = index.roster := by
  cases index with
  | hnsw index =>
      obtain ⟨_, _, done⟩ := bind_ok searched
      cases done
      exact ⟨sound, rfl, rfl⟩
  | ivf index =>
      obtain ⟨⟨found, next⟩, inner, done⟩ := bind_ok searched
      cases done
      obtain ⟨roster, settings, count⟩ := IvfIndex.search_rest host inner
      have wellFormed : next.WellFormed := by
        have before : index.WellFormed := sound.wellFormed
        exact ⟨by rw [roster]; exact before.sound, by rw [count, roster]; exact before.liveCount⟩
      have dimensions := (congrArg Prod.fst settings).trans sound.dimensionality
      have metrics := (congrArg (fun parts => parts.2.1) settings).trans sound.metric
      exact ⟨⟨wellFormed, dimensions, metrics⟩, rfl, roster⟩

end Operations

end Index

end VectorVault
