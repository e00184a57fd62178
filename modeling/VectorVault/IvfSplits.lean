import VectorVault.IvfOverwrites

/-! Partitionings that one move of the centroids settles.

The records take few vectors, each told by a number. When the nearest centroid of
each number is still nearest after the centroids moved, k-means ends there. -/

namespace VectorVault.IvfIndex

open FloatOrder Alternation Lloyd

section Splits

variable {D : Type} [LinearOrder D] [OrderTop D] {host : Host D} {index : IvfIndex}

/-- An index whose records take few vectors, told by numbers: where each number
goes in the first round, and where its centroid moves. -/
structure Split (host : Host D) (index : IvfIndex) (point : Nat → List F32)
    (value : RecordId → Nat) (target : Nat → Nat) (centre : Nat → List F32) : Prop where
  vectors : ∀ entry ∈ index.liveEntries, entry.vector = point (value entry.id)
  hits : ∀ id ∈ index.liveIds, ∃ drawn ∈ index.drawnIds host, value drawn = target (value id)
  own : ∀ drawn ∈ index.drawnIds host, target (value drawn) = value drawn
  near : ∀ id ∈ index.liveIds, ∀ drawn ∈ index.drawnIds host, value drawn ≠ target (value id) →
    host.squaredL2 (point (value id)) (point (target (value id))) <
      host.squaredL2 (point (value id)) (point (value drawn))
  mean : ∀ drawn ∈ index.drawnIds host, host.mean ((index.liveEntries.filter
    (fun entry => target (value entry.id) = value drawn)).map IvfEntry.vector) =
      centre (value drawn)
  single : ∀ drawn ∈ index.drawnIds host, centre (value drawn) = point (value drawn) ∨
    ∀ other ∈ index.drawnIds host, value other = value drawn → other = drawn
  nearAfter : ∀ id ∈ index.liveIds, ∀ drawn ∈ index.drawnIds host,
    value drawn ≠ target (value id) →
      host.squaredL2 (point (value id)) (centre (target (value id))) <
        host.squaredL2 (point (value id)) (centre (value drawn))

namespace Split

variable {point : Nat → List F32} {value : RecordId → Nat} {target : Nat → Nat}
  {centre : Nat → List F32}

def place (host : Host D) (index : IvfIndex) (value : RecordId → Nat) (number : Nat) : Nat :=
  (index.drawnIds host).findIdx (fun drawn => value drawn = number)

omit [LinearOrder D] [OrderTop D] in
theorem place_spec {number : Nat} (some_ : ∃ drawn ∈ index.drawnIds host, value drawn = number) :
    ∃ inside : place host index value number < (index.drawnIds host).length,
      value (index.drawnIds host)[place host index value number] = number := by
  have inside : place host index value number < (index.drawnIds host).length := by
    apply List.findIdx_lt_length.mpr
    rcases some_ with ⟨drawn, member, same⟩
    exact ⟨drawn, member, decide_eq_true same⟩
  refine ⟨inside, ?_⟩
  have holds := @List.findIdx_getElem _ (fun drawn => decide (value drawn = number))
    (index.drawnIds host) inside
  exact of_decide_eq_true holds

omit [LinearOrder D] [OrderTop D] in
theorem place_inj {number number' : Nat}
    (some_ : ∃ drawn ∈ index.drawnIds host, value drawn = number)
    (some' : ∃ drawn ∈ index.drawnIds host, value drawn = number')
    (same : place host index value number = place host index value number') :
    number = number' := by
  rcases place_spec some_ with ⟨inside, here⟩
  rcases place_spec some' with ⟨inside', here'⟩
  rw [← here, ← here']
  congr 1
  simp only [same]

theorem firstLeast_place {number : Nat} {q : List F32} {centres : Nat → List F32}
    (some_ : ∃ drawn ∈ index.drawnIds host, value drawn = number)
    (less : ∀ drawn ∈ index.drawnIds host, value drawn ≠ number →
      host.squaredL2 q (centres number) < host.squaredL2 q (centres (value drawn))) :
    FirstLeast (((index.drawnIds host).map (fun drawn => centres (value drawn))).map
      (host.squaredL2 q)) (place host index value number) := by
  rw [List.map_map]
  rcases some_ with ⟨drawn, member, isNumber⟩
  apply firstLeast_findIdx ⟨drawn, member, decide_eq_true isNumber⟩
  · intro other _ same
    rw [Function.comp_apply, of_decide_eq_true same]
  · intro other inside differs
    exact less other inside (fun same => differs (decide_eq_true same))

omit [LinearOrder D] [OrderTop D] in
theorem drawnIds_nodup (wellFormed : index.WellFormed) : (index.drawnIds host).Nodup := by
  have distinct : index.liveIds.Nodup := by
    have all := wellFormed.sound.nodup_ids
    exact all.sublist ((List.filter_sublist).map IvfEntry.id)
  have positions : ((host.shuffled index.seed index.liveIds.length).take
      (index.cellCount index.liveIds.length)).Nodup := by
    have whole : (host.shuffled index.seed index.liveIds.length).Nodup :=
      (host.shuffled_perm _ _).nodup_iff.mpr List.nodup_range
    exact whole.sublist (List.take_sublist _ _)
  rw [drawnIds_eq]
  apply positions.filterMap
  intro first second id found found'
  rcases List.getElem?_eq_some_iff.mp found with ⟨inside, isId⟩
  rcases List.getElem?_eq_some_iff.mp found' with ⟨inside', isId'⟩
  exact (List.Nodup.getElem_inj_iff distinct).mp (isId.trans isId'.symm)

omit [LinearOrder D] [OrderTop D] in
theorem drawn_live {id : RecordId} (member : id ∈ index.drawnIds host) : id ∈ index.liveIds := by
  rcases List.mem_map.mp member with ⟨entry, drawn, isId⟩
  rw [← isId]
  exact List.mem_map_of_mem (mem_drawn host drawn)

variable (split : Split host index point value target centre)

omit [OrderTop D] in
include split in
theorem start : (index.drawn host).map IvfEntry.vector =
    (index.drawnIds host).map (fun drawn => point (value drawn)) := by
  rw [drawnIds, List.map_map]
  apply List.map_congr_left
  intro entry member
  exact split.vectors entry (mem_drawn host member)

include split in
theorem cell_eq {entry : IvfEntry} (member : entry ∈ index.liveEntries) :
    cellOf host ((index.drawn host).map IvfEntry.vector) entry.vector =
      place host index value (target (value entry.id)) := by
  have isLive : entry.id ∈ index.liveIds := List.mem_map_of_mem member
  have some_ := split.hits entry.id isLive
  rcases some_ with ⟨drawn, isDrawn, _⟩
  have positive : 0 < ((index.drawn host).map IvfEntry.vector).length := by
    rw [split.start, List.length_map]
    exact List.length_pos_of_mem isDrawn
  have least := cellOf_firstLeast host entry.vector positive
  rw [split.start, split.vectors entry member] at least
  rw [split.start, split.vectors entry member]
  exact least.unique (firstLeast_place (split.hits entry.id isLive) (split.near entry.id isLive))

include split in
/-- The centroids go where the numbers say, at the first place of each; at a later
place of a number there is nobody. -/
theorem centres_moved (wellFormed : index.WellFormed) :
    moved host.mean (index.liveEntries.map IvfEntry.vector)
        (cellOf host ((index.drawn host).map IvfEntry.vector))
        ((index.drawn host).map IvfEntry.vector) =
      (index.drawnIds host).map (fun drawn => centre (value drawn)) := by
  have lengths : ((index.drawn host).map IvfEntry.vector).length =
      (index.drawnIds host).length := by rw [split.start, List.length_map]
  apply List.ext_getElem
  · rw [length_moved, lengths, List.length_map]
  · intro cell inside inside'
    have below : cell < (index.drawnIds host).length := by
      rw [length_moved, lengths] at inside
      exact inside
    have known : (index.drawnIds host)[cell] ∈ index.drawnIds host := List.getElem_mem below
    have some_ : ∃ drawn ∈ index.drawnIds host,
        value drawn = value (index.drawnIds host)[cell] := ⟨_, known, rfl⟩
    -- The group of the cell, told by the numbers.
    have grouped : group (index.liveEntries.map IvfEntry.vector)
          (cellOf host ((index.drawn host).map IvfEntry.vector)) cell =
        (index.liveEntries.filter (fun entry =>
          place host index value (target (value entry.id)) = cell)).map IvfEntry.vector := by
      rw [group, List.filter_map]
      congr 1
      apply List.filter_congr
      intro entry member
      simp only [Function.comp_apply, split.cell_eq member]
    have isCentre : ((index.drawnIds host).map (fun drawn => centre (value drawn)))[cell] =
        centre (value (index.drawnIds host)[cell]) := List.getElem_map _
    rw [getElem_moved host.mean _ _ inside (by rw [lengths]; exact below), grouped, isCentre]
    by_cases first : place host index value (value (index.drawnIds host)[cell]) = cell
    · have same : index.liveEntries.filter (fun entry =>
            place host index value (target (value entry.id)) = cell) =
          index.liveEntries.filter (fun entry =>
            target (value entry.id) = value (index.drawnIds host)[cell]) := by
        apply List.filter_congr
        intro entry member
        apply decide_eq_decide.mpr
        have hits := split.hits entry.id (List.mem_map_of_mem member)
        constructor
        · intro here
          exact place_inj hits some_ (here.trans first.symm)
        · intro isTarget
          rw [isTarget, first]
      have itself : ∃ entry, entry ∈ index.liveEntries.filter (fun entry =>
          target (value entry.id) = value (index.drawnIds host)[cell]) := by
        rcases List.mem_map.mp (drawn_live known) with ⟨entry, member, isId⟩
        refine ⟨entry, List.mem_filter.mpr ?_⟩
        rw [isId, split.own _ known]
        exact ⟨member, decide_eq_true rfl⟩
      rw [same, if_neg (fun none => ?_), split.mean _ known]
      rcases itself with ⟨entry, inGroup⟩
      rw [List.map_eq_nil_iff.mp none] at inGroup
      exact List.not_mem_nil inGroup
    · have nobody : index.liveEntries.filter (fun entry =>
          place host index value (target (value entry.id)) = cell) = [] := by
        apply List.filter_eq_nil_iff.mpr
        intro entry member here
        have isCell := of_decide_eq_true here
        rcases place_spec (split.hits entry.id (List.mem_map_of_mem member)) with ⟨_, isTarget⟩
        simp only [isCell] at isTarget
        rw [← isTarget] at isCell
        exact first isCell
      have isStart : ((index.drawn host).map IvfEntry.vector)[cell]? =
          some (point (value (index.drawnIds host)[cell])) := by
        rw [split.start, List.getElem?_map, List.getElem?_eq_getElem below]
        rfl
      rw [nobody, List.map_nil, if_pos rfl, Option.some.inj ((List.getElem?_eq_getElem _).symm.trans
        isStart)]
      rcases split.single _ known with stays | only
      · rw [stays]
      · rcases place_spec some_ with ⟨low, same⟩
        have equal := only _ (List.getElem_mem low) same
        exact absurd ((List.Nodup.getElem_inj_iff (drawnIds_nodup wellFormed)).mp equal) first

include split in
theorem search_one (kept : index.Kept host) (live : index.liveCount ≠ 0) {q : List F32}
    {number : Nat} (some_ : ∃ drawn ∈ index.drawnIds host, value drawn = number)
    (closest : FirstLeast (((index.drawnIds host).map (fun drawn => centre (value drawn))).map
      (host.squaredL2 q)) (place host index value number))
    {k : UInt32} (wanted : k ≠ 0) {query : QueryParams} (one : query.nprobe = 1) :
    ∃ after, index.search host q k query =
      .ok ((sortBy HnswIndex.candidateLt ((index.liveEntries.filter (fun entry =>
        target (value entry.id) = number)).map (fun entry =>
          ⟨entry.id, host.distanceOr index.metric q entry.vector⟩))).take k.toNat, after) := by
  have someDrawn : (index.drawn host).map IvfEntry.vector ≠ [] := fun none =>
    drawn_ne_nil host (kept.wellFormed.liveSlots_ne_nil live) (List.map_eq_nil_iff.mp none)
  have positive := List.length_pos_iff.mpr someDrawn
  rcases (⟨rounds host _ someDrawn⟩ : Nonempty (index.LiveCourse host)) with ⟨course⟩
  have before : ∀ vec ∈ index.liveEntries.map IvfEntry.vector,
      FirstLeast (((index.drawn host).map IvfEntry.vector).map (host.squaredL2 vec))
        (cellOf host ((index.drawn host).map IvfEntry.vector) vec) :=
    fun vec _ => cellOf_firstLeast host vec positive
  have stays := course.stays before (by
    rw [split.centres_moved kept.wellFormed, List.forall_mem_map]
    intro entry member
    rw [split.cell_eq member, split.vectors entry member]
    have isLive : entry.id ∈ index.liveIds := List.mem_map_of_mem member
    exact firstLeast_place (split.hits entry.id isLive) (split.nearAfter entry.id isLive))
  rcases kept.rounds_end host live course with ⟨built, ensured, entries, clustered⟩
  have settled : course.centres maxKMeansIterations =
      (index.drawnIds host).map (fun drawn => centre (value drawn)) :=
    (stays (maxKMeansIterations - 1)).1.trans (split.centres_moved kept.wellFormed)
  rw [settled] at clustered
  have length : 0 < ((index.drawnIds host).map (fun drawn => centre (value drawn))).length := by
    rcases some_ with ⟨drawn, member, _⟩
    rw [List.length_map]
    exact List.length_pos_of_mem member
  rcases probes_one host one q length with ⟨distance, probed⟩
  have nearest := (cellOf_firstLeast host q length).unique closest
  rw [nearest] at probed
  have searched := search_clustered host
    (show ¬ (k = 0 ∨ index.liveCount = 0) from fun idle => idle.elim wanted live) ensured clustered
    (List.length_pos_iff.mp length) q query
  have metric : built.metric = index.metric :=
    congrArg (fun parts => parts.2.1) (ensurePartitionsBuilt_rest host ensured).2.1
  have posted_ : built.posted host (course.label (maxKMeansIterations - 1)) q
        (place host index value number) =
      (index.liveEntries.filter (fun entry => target (value entry.id) = number)).map (fun entry =>
          ⟨entry.id, host.distanceOr index.metric q entry.vector⟩) := by
    rw [posted, entries, metric]
    congr 1
    apply List.filter_congr
    intro entry member
    apply decide_eq_decide.mpr
    rw [(stays (maxKMeansIterations - 1)).2 entry.vector (List.mem_map_of_mem member),
      split.cell_eq member]
    constructor
    · intro same
      exact place_inj (split.hits entry.id (List.mem_map_of_mem member)) some_ same
    · intro isNumber
      rw [isNumber]
  rw [probed, List.flatMap_cons, List.flatMap_nil, List.append_nil, posted_] at searched
  exact ⟨built, searched⟩

end Split

end Splits

end VectorVault.IvfIndex
