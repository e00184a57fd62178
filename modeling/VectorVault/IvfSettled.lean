import VectorVault.IvfProbes
import VectorVault.Library.Lloyd

/-! Posting lists and the centroids they are ranked by.

The lists come from the last assignment, and the centroids move once more after
it. A record stands in the list of its nearest centroid when that move changed
no nearest centroid: when Lloyd's algorithm had settled before the cap. -/

namespace VectorVault.IvfIndex

open FloatOrder Alternation Lloyd

section Rounds

variable {D : Type} [FloatOrder D] (host : Host D)

def lloyd (vectors centroids : List (List F32)) : List (List F32) :=
  Alternation.round (fun centroids => assign host centroids vectors)
    (fun centroids assignment => recompute host centroids vectors assignment) centroids

theorem refine_alternates (vectors : List (List F32)) (rounds : Nat) (isFirst : Bool)
    (assignment : List Nat) (centroids : List (List F32)) :
    refine host vectors rounds isFirst assignment centroids =
      Alternation.refine (fun centroids => assign host centroids vectors)
        (fun centroids assignment => recompute host centroids vectors assignment)
        rounds isFirst assignment centroids := by
  induction rounds generalizing isFirst assignment centroids with
  | zero => rfl
  | succ rounds ih => simp only [refine, Alternation.refine, ih]

omit [FloatOrder D] in
theorem recompute_again (vectors centroids : List (List F32)) (assignment : List Nat) :
    recompute host (recompute host centroids vectors assignment) vectors assignment =
      recompute host centroids vectors assignment := by
  unfold recompute
  rw [List.mapIdx_mapIdx]
  congr 1
  funext cell centroid
  simp only [Function.comp_apply]
  split
  · rfl
  · rfl

theorem refine_lloyd (vectors initial : List (List F32)) (assignment : List Nat) :
    refine host vectors maxKMeansIterations true assignment initial =
      (vectors.map (cellOf host ((lloyd host vectors)^[maxKMeansIterations - 1] initial)),
        (lloyd host vectors)^[maxKMeansIterations] initial) := by
  rw [refine_alternates]
  exact Alternation.refine_eq _ _ (recompute_again host vectors) 11 true assignment initial
    (fun isFalse => absurd isFalse (by decide))

theorem length_lloyd (vectors : List (List F32)) (rounds : Nat) (centroids : List (List F32)) :
    ((lloyd host vectors)^[rounds] centroids).length = centroids.length := by
  induction rounds generalizing centroids with
  | zero => rfl
  | succ rounds ih =>
      calc ((lloyd host vectors)^[rounds + 1] centroids).length
          = (lloyd host vectors centroids).length := ih _
        _ = centroids.length := length_recompute host _ _ _

omit [FloatOrder D] in
theorem recompute_moved (vectors centroids : List (List F32)) (cells : List F32 → Nat) :
    recompute host centroids vectors (vectors.map cells) =
      moved host.mean vectors cells centroids := by
  unfold recompute moved
  simp only [members_map]
  rfl

end Rounds

section Courses

variable {D : Type} [LinearOrder D] [OrderTop D] (host : Host D) {index built : IvfIndex}

/-- Induction over the centroids left; `front` are the distances seen. -/
theorem nearestCell_firstLeast (vec : List F32) (rest : List (List F32)) (front : List D)
    (place : Nat) (least : FirstLeast front place) :
    FirstLeast (front ++ rest.map (host.squaredL2 vec))
      (nearestCell host vec rest front.length (front.getD place ⊤, place)) := by
  induction rest generalizing front place with
  | nil =>
      rw [List.map_nil, List.append_nil]
      exact least
  | cons centroid rest ih =>
      have next := ih (front ++ [host.squaredL2 vec centroid]) _ (least.push _)
      rw [List.append_assoc, List.length_append, List.length_singleton] at next
      have best : (if lt (host.squaredL2 vec centroid) (front.getD place ⊤) then
            (host.squaredL2 vec centroid, front.length) else (front.getD place ⊤, place)) =
          ((front ++ [host.squaredL2 vec centroid]).getD
            (if host.squaredL2 vec centroid < front.getD place ⊤ then front.length else place) ⊤,
            if host.squaredL2 vec centroid < front.getD place ⊤ then front.length else place) := by
        by_cases less : host.squaredL2 vec centroid < front.getD place ⊤
        · rw [if_pos ((lt_iff _ _).mpr less), if_pos less]
          simp
        · rw [if_neg (fun holds => less ((lt_iff _ _).mp holds)), if_neg less,
            List.getD_append _ _ _ _ least.1]
      rw [List.map_cons, nearestCell]
      simp only [best]
      exact next

theorem cellOf_firstLeast (vec : List F32) {centroids : List (List F32)}
    (some_ : 0 < centroids.length) :
    FirstLeast (centroids.map (host.squaredL2 vec)) (cellOf host centroids vec) := by
  cases centroids with
  | nil => exact absurd some_ (Nat.lt_irrefl 0)
  | cons centroid rest =>
      have start := nearestCell_firstLeast host vec rest [host.squaredL2 vec centroid] 0
        (firstLeast_single _)
      have first : (if lt (host.squaredL2 vec centroid) (infinity : D) then
          (host.squaredL2 vec centroid, 0) else (infinity, 0)) =
            (host.squaredL2 vec centroid, 0) := by
        by_cases less : host.squaredL2 vec centroid < ⊤
        · exact if_pos ((lt_iff _ _).mpr less)
        · rw [not_lt_top_iff.mp less]
          exact ite_self _
      rw [cellOf, nearestCell]
      simp only [first]
      exact start

/-- The rounds of the code, as if there were no cap on them. -/
def rounds (vectors : List (List F32)) {start : List (List F32)} (some_ : start ≠ []) :
    Course host.squaredL2 host.mean vectors start where
  centres round := (lloyd host vectors)^[round] start
  label round := cellOf host ((lloyd host vectors)^[round] start)
  starts := rfl
  nearest round vec _ := by
    apply cellOf_firstLeast
    rw [length_lloyd]
    exact List.length_pos_iff.mpr some_
  moves round := by
    rw [Function.iterate_succ_apply']
    exact recompute_moved host vectors _ _

theorem rounds_centres (vectors : List (List F32)) {start : List (List F32)} (some_ : start ≠ [])
    (round : Nat) :
    (rounds host vectors some_).centres round = (lloyd host vectors)^[round] start := rfl

theorem rounds_label (vectors : List (List F32)) {start : List (List F32)} (some_ : start ≠ [])
    (round : Nat) :
    (rounds host vectors some_).label round = cellOf host ((lloyd host vectors)^[round] start) := rfl

theorem rounds_nearest (vectors : List (List F32)) {start : List (List F32)} (some_ : start ≠ [])
    (round : Nat) : (rounds host vectors some_).label round =
      cellOf host ((rounds host vectors some_).centres round) := rfl

theorem rounds_inside (vectors : List (List F32)) {start : List (List F32)} (some_ : start ≠ [])
    (round : Nat) (vec : List F32) : (rounds host vectors some_).label round vec < start.length := by
  rw [rounds_nearest, ← Course.length_centres (rounds host vectors some_) round]
  apply cellOf_lt
  rw [Course.length_centres]
  exact List.length_pos_iff.mpr some_

/-- What Lloyd's algorithm does with the live vectors, from those drawn. -/
abbrev LiveCourse (index : IvfIndex) : Type :=
  Course host.squaredL2 host.mean (index.liveEntries.map IvfEntry.vector)
    ((index.drawn host).map IvfEntry.vector)

/-- The labels of the twelfth round are for good. -/
def Settles (index : IvfIndex) : Prop :=
  ∃ course : index.LiveCourse host, course.SettledBy (maxKMeansIterations - 1)

theorem Clustered.congr {cells cells' : List F32 → Nat} {settled : List (List F32)}
    (clustered : built.Clustered cells settled)
    (same : ∀ entry ∈ built.liveEntries, cells entry.vector = cells' entry.vector) :
    built.Clustered cells' settled := by
  refine ⟨clustered.settled, ?_⟩
  rw [clustered.lists]
  apply List.map_congr_left
  intro cell _
  congr 1
  apply List.filter_congr
  intro pair member
  rw [same pair.1 (by rw [← livePairs_fst]; exact List.mem_map_of_mem member)]

theorem Kept.rounds_end (kept : index.Kept host) (some_ : index.liveCount ≠ 0)
    (course : index.LiveCourse host) :
    ∃ built, index.ensurePartitionsBuilt host = .ok built ∧
      built.liveEntries = index.liveEntries ∧
      built.Clustered (course.label (maxKMeansIterations - 1))
        (course.centres maxKMeansIterations) := by
  have live := kept.wellFormed.liveSlots_ne_nil some_
  have start : (index.drawn host).map IvfEntry.vector ≠ [] :=
    fun none => drawn_ne_nil host live (List.map_eq_nil_iff.mp none)
  have ends := refine_lloyd host (index.liveEntries.map IvfEntry.vector)
    ((index.drawn host).map IvfEntry.vector)
    ((index.liveEntries.map IvfEntry.vector).map (fun _ => 0))
  rw [← livePairs_vectors] at ends
  rcases kept.clustered host live ends ((length_lloyd host _ _ _).trans
    (List.length_map IvfEntry.vector)) with ⟨built, ensured, clustered⟩
  have entries : built.liveEntries = index.liveEntries := by
    rw [liveEntries, liveEntries]
    exact congrArg (List.filter _)
      (congrArg Roster.entries (ensurePartitionsBuilt_rest host ensured).1)
  rw [livePairs_vectors, ← rounds_label host _ start, ← rounds_centres host _ start] at clustered
  refine ⟨built, ensured, entries, ?_⟩
  rw [Course.centres_unique course (rounds host _ start) maxKMeansIterations]
  apply clustered.congr
  intro entry member
  rw [entries] at member
  exact Course.label_unique (rounds host _ start) course (maxKMeansIterations - 1) entry.vector
    (List.mem_map_of_mem member)

end Courses

section Nearest

variable {D : Type} [LinearOrder D] [OrderTop D] (host : Host D) {index built : IvfIndex}

/-- Every live record stands in the posting list of the first of its nearest centroids. -/
def Matched (index : IvfIndex) : Prop :=
  ∀ pair ∈ index.livePairs, ∃ cell < index.invertedLists.length,
    pair.2 ∈ index.invertedLists.getD cell [] ∧
      FirstLeast (index.centroids.map (host.squaredL2 pair.1.vector)) cell

instance (index : IvfIndex) : Decidable (index.Matched host) :=
  inferInstanceAs (Decidable (∀ pair ∈ index.livePairs, ∃ cell < index.invertedLists.length,
    pair.2 ∈ index.invertedLists.getD cell [] ∧
      FirstLeast (index.centroids.map (host.squaredL2 pair.1.vector)) cell))

theorem livePairs_unique {pair other : IvfEntry × Nat} (member : pair ∈ index.livePairs)
    (member' : other ∈ index.livePairs) (same : pair.2 = other.2) : pair = other := by
  have found := List.mem_zipIdx_iff_getElem?.mp (List.mem_filter.mp member).1
  have found' := List.mem_zipIdx_iff_getElem?.mp (List.mem_filter.mp member').1
  rw [same, found'] at found
  exact Prod.ext (Option.some.inj found).symm same

theorem Clustered.matched_iff {cells : List F32 → Nat} {settled : List (List F32)}
    (clustered : built.Clustered cells settled) (inside : ∀ vec, cells vec < settled.length) :
    built.Matched host ↔ ∀ entry ∈ built.liveEntries, cells entry.vector =
      cellOf host settled entry.vector := by
  have positive : 0 < settled.length := lt_of_le_of_lt (Nat.zero_le _) (inside [])
  have listed : ∀ cell < settled.length, built.invertedLists.getD cell [] =
      (built.livePairs.filter (fun pair => cells pair.1.vector = cell)).map Prod.snd := by
    intro cell less
    rw [clustered.lists, List.getD_eq_getElem?_getD, List.getElem?_map, List.getElem?_range less]
    rfl
  have count : built.invertedLists.length = settled.length := by
    rw [clustered.lists, List.length_map, List.length_range]
  constructor
  · intro matched entry member
    rw [← livePairs_fst] at member
    rcases List.mem_map.mp member with ⟨pair, isLive, isEntry⟩
    rcases matched pair isLive with ⟨cell, less, posted, least⟩
    rw [count] at less
    rw [listed cell less] at posted
    rcases List.mem_map.mp posted with ⟨other, isOther, same⟩
    rcases List.mem_filter.mp isOther with ⟨isLive', here⟩
    have isCell : cells pair.1.vector = cell := by
      rw [livePairs_unique isLive isLive' same.symm]
      exact of_decide_eq_true here
    rw [clustered.settled] at least
    rw [← isEntry, isCell]
    exact least.unique (cellOf_firstLeast host pair.1.vector positive)
  · intro agrees pair isLive
    have member : pair.1 ∈ built.liveEntries := by
      rw [← livePairs_fst]
      exact List.mem_map_of_mem isLive
    have less := inside pair.1.vector
    refine ⟨cells pair.1.vector, by rw [count]; exact less, ?_, ?_⟩
    · rw [listed _ less]
      exact List.mem_map_of_mem (List.mem_filter.mpr ⟨isLive, by simp⟩)
    · rw [clustered.settled, agrees pair.1 member]
      exact cellOf_firstLeast host pair.1.vector positive

theorem probes_one {query : QueryParams} (one : query.nprobe = 1) (q : List F32)
    {centroids : List (List F32)} (some_ : 0 < centroids.length) :
    ∃ length, probes host q centroids query = [(length, cellOf host centroids q)] := by
  have count : probeCount centroids.length query = 1 := by
    have few : ¬ (1 : UInt32) < 1 := by decide
    have isOne : (1 : UInt32).toNat = 1 := rfl
    simp only [probeCount, one, if_neg few, isOne]
    split <;> omega
  have ascending := sortBy_pairwise pairLt (fun cell : D × Nat => toLex cell) pairLt_iff
    (centroids.mapIdx (fun c centroid => (host.squaredL2 q centroid, c)))
  have known : ∀ cell, cell ∈ sortBy pairLt (centroids.mapIdx
      (fun c centroid => (host.squaredL2 q centroid, c))) ↔
        ∃ c, ∃ inside : c < centroids.length, (host.squaredL2 q centroids[c], c) = cell := by
    intro cell
    rw [mem_sortBy, List.mem_mapIdx]
  unfold probes
  rw [count]
  cases sorted : sortBy pairLt (centroids.mapIdx
      (fun c centroid => (host.squaredL2 q centroid, c))) with
  | nil =>
      have length := length_sortBy pairLt (centroids.mapIdx
        (fun c centroid => (host.squaredL2 q centroid, c)))
      rw [sorted, List.length_mapIdx] at length
      exact absurd length (Nat.ne_of_lt some_)
  | cons head rest =>
      rw [sorted] at ascending known
      rcases (known head).mp List.mem_cons_self with ⟨c, inside, isHead⟩
      have values : ∀ other (less : other < centroids.length),
          (centroids.map (host.squaredL2 q)).getD other ⊤ = host.squaredL2 q centroids[other] := by
        intro other less
        simp [less]
      have least : FirstLeast (centroids.map (host.squaredL2 q)) head.2 := by
        rw [← isHead]
        refine ⟨by rw [List.length_map]; exact inside, ?_⟩
        intro other below
        rw [List.length_map] at below
        rw [values c inside, values other below]
        have atMost : toLex head ≤ toLex (host.squaredL2 q centroids[other], other) := by
          rcases List.mem_cons.mp ((known _).mpr ⟨other, below, rfl⟩) with same | later
          · rw [same]
          · exact (List.pairwise_cons.mp ascending).1 _ later
        rw [← isHead] at atMost
        rcases Prod.Lex.toLex_le_toLex.mp atMost with less | ⟨same, order⟩
        · exact ⟨less.le, fun _ => less⟩
        · exact ⟨le_of_eq same, fun sooner => absurd order (not_le.mpr sooner)⟩
      have isCell := least.unique (cellOf_firstLeast host q some_)
      exact ⟨head.1, by rw [← isCell]; rfl⟩

end Nearest

section Search

variable {D : Type} [LinearOrder D] [OrderTop D] [OrderBot D] (host : Host D)
  {index built : IvfIndex} {dimensionality : UInt32} {metric : DistanceMetric} {params : IndexParams}

/-- A search for the vector of a live record with one probe comes back with
something at distance zero. -/
def FindsItself (index : IvfIndex) : Prop :=
  ∀ entry ∈ index.liveEntries, ∀ query : QueryParams, query.nprobe = 1 →
    ∃ found after, index.search host entry.vector 1 query = .ok ([found], after) ∧
      found.distance = ⊥

theorem findsItself_of_nearest {cells : List F32 → Nat} {settled : List (List F32)}
    (some_ : index.liveCount ≠ 0) (ensured : index.ensurePartitionsBuilt host = .ok built)
    (clustered : built.Clustered cells settled) (positive : 0 < settled.length)
    (nearest : ∀ entry ∈ index.liveEntries, cells entry.vector = cellOf host settled entry.vector)
    (self : ∀ entry ∈ index.liveEntries,
      host.distanceOr index.metric entry.vector entry.vector = ⊥) :
    index.FindsItself host := by
  intro entry member query one
  rcases ensurePartitionsBuilt_rest host ensured with ⟨roster, settings, _⟩
  have entries : built.liveEntries = index.liveEntries := by
    rw [liveEntries, liveEntries]
    exact congrArg (List.filter _) (congrArg Roster.entries roster)
  have sameMetric : built.metric = index.metric := congrArg (fun parts => parts.2.1) settings
  rcases probes_one host one entry.vector positive with ⟨length, probed⟩
  have itself : (⟨entry.id, ⊥⟩ : Candidate D) ∈
      built.posted host cells entry.vector (cellOf host settled entry.vector) := by
    apply List.mem_map.mpr
    refine ⟨entry, ?_, by rw [sameMetric, self entry member]⟩
    rw [entries]
    exact List.mem_filter.mpr ⟨member, decide_eq_true (nearest entry member)⟩
  have wanted : ¬ ((1 : UInt32) = 0 ∨ index.liveCount = 0) := by
    rintro (none | none)
    · exact absurd none (by decide)
    · exact some_ none
  have searched := search_clustered host wanted ensured clustered
    (List.length_pos_iff.mp positive) entry.vector query
  rw [probed, List.flatMap_cons, List.flatMap_nil, List.append_nil] at searched
  have ascending := sortBy_pairwise HnswIndex.candidateLt candidateRank candidateLt_iff
    (built.posted host cells entry.vector (cellOf host settled entry.vector))
  rw [← mem_sortBy HnswIndex.candidateLt] at itself
  cases sorted : sortBy HnswIndex.candidateLt (built.posted host cells entry.vector
      (cellOf host settled entry.vector)) with
  | nil =>
      rw [sorted] at itself
      cases itself
  | cons head rest =>
      rw [sorted] at searched itself ascending
      refine ⟨head, built, searched, ?_⟩
      rcases List.mem_cons.mp itself with same | later
      · rw [← same]
      · rcases Prod.Lex.toLex_le_toLex.mp ((List.pairwise_cons.mp ascending).1 _ later) with
          less | ⟨same, _⟩
        · exact absurd less not_lt_bot
        · exact same

omit [OrderBot D] in
theorem settles_iff (course : index.LiveCourse host) :
    index.Settles host ↔ ∀ entry ∈ index.liveEntries,
      course.label maxKMeansIterations entry.vector =
        course.label (maxKMeansIterations - 1) entry.vector := by
  have repeated := course.settledBy_iff (maxKMeansIterations - 1)
  rw [List.forall_mem_map] at repeated
  constructor
  · rintro ⟨other, settled⟩
    apply repeated.mp
    intro later after vec member
    rw [course.label_unique other later vec member, settled later after vec member,
      course.label_unique other _ vec member]
  · intro holds
    exact ⟨course, repeated.mpr holds⟩

/-- The lists match the centroids, and a Euclidean search for a live vector finds
it, exactly when Lloyd's algorithm settles within the cap. -/
theorem partitions_matched_iff (reached : Reached host dimensionality metric params index)
    (live : index.liveCount ≠ 0)
    (self : ∀ entry ∈ index.liveEntries,
      host.distance .euclidean entry.vector entry.vector = .ok ⊥) :
    ∃ built, index.ensurePartitionsBuilt host = .ok built ∧
      ((built.Matched host ∧ (metric = .euclidean → index.FindsItself host)) ↔
        index.Settles host) := by
  rcases reached.kept host with ⟨kept, settings⟩
  have isMetric : index.metric = metric := congrArg (fun parts => parts.2.1) settings
  have start : (index.drawn host).map IvfEntry.vector ≠ [] := fun none =>
    drawn_ne_nil host (kept.wellFormed.liveSlots_ne_nil live) (List.map_eq_nil_iff.mp none)
  have length := Course.length_centres
    (rounds host (index.liveEntries.map IvfEntry.vector) start) maxKMeansIterations
  have inside := rounds_inside host (index.liveEntries.map IvfEntry.vector) start
    (maxKMeansIterations - 1)
  rw [← length] at inside
  rcases kept.rounds_end host live (rounds host _ start) with ⟨built, ensured, entries, clustered⟩
  have matched := clustered.matched_iff host inside
  have settles : index.Settles host ↔ ∀ entry ∈ index.liveEntries,
      (rounds host (index.liveEntries.map IvfEntry.vector) start).label
        (maxKMeansIterations - 1) entry.vector =
      cellOf host ((rounds host (index.liveEntries.map IvfEntry.vector) start).centres
        maxKMeansIterations) entry.vector := by
    rw [settles_iff host (rounds host _ start), rounds_nearest host _ start maxKMeansIterations]
    exact forall₂_congr (fun _ _ => eq_comm)
  rw [entries, ← settles] at matched
  refine ⟨built, ensured, ?_⟩
  constructor
  · intro both
    exact matched.mp both.1
  · intro holds
    refine ⟨matched.mpr holds, ?_⟩
    intro isEuclidean
    apply findsItself_of_nearest host live ensured clustered (lt_of_le_of_lt (Nat.zero_le _)
      (inside [])) (settles.mp holds)
    intro entry member
    rw [Host.distanceOr, isMetric, isEuclidean, self entry member]

omit [OrderBot D] in
theorem settles_of_single (course : index.LiveCourse host)
    (single : index.cellCount index.liveEntries.length ≤ 1) (live : index.liveEntries ≠ []) :
    index.Settles host := by
  refine ⟨course, (course.settledBy_of_single ?_).later (Nat.zero_le _)⟩
  have positive := List.length_pos_iff.mpr live
  have bounds := @cellCount_bounds index _ positive
  rw [List.length_map, length_drawn]
  omega

omit [OrderBot D] in
theorem settles_of_drawn (course : index.LiveCourse host)
    (drawn : ∀ entry ∈ index.liveEntries,
      entry.vector ∈ (index.drawn host).map IvfEntry.vector)
    (apart : ∀ entry ∈ index.liveEntries, ∀ other ∈ index.liveEntries,
      other.vector ≠ entry.vector → host.squaredL2 entry.vector entry.vector <
        host.squaredL2 entry.vector other.vector)
    (copies : ∀ entry ∈ index.liveEntries, ∀ count,
      host.mean (List.replicate (count + 1) entry.vector) = entry.vector) :
    index.Settles host := by
  refine ⟨course, (course.settledBy_of_covered ?_ ?_ ?_).later (Nat.zero_le _)⟩
  · exact List.forall_mem_map.mpr drawn
  · rw [List.forall_mem_map]
    intro entry member
    rw [List.forall_mem_map]
    intro other isDrawn
    exact apart entry member other (mem_drawn host isDrawn)
  · exact List.forall_mem_map.mpr copies

def threePoints : List (RecordId × List F32) :=
  [([1], [ExactLine.whole 0]), ([2], [ExactLine.whole 4]), ([3], [ExactLine.whole 10])]

theorem partitions_matched_iff_of_three_points :
    ∃ index built : IvfIndex, index.liveEntries.map IvfEntry.vector = threePoints.map Prod.snd ∧
      index.ensurePartitionsBuilt ExactLine.meansHost = .ok built ∧
      ((built.Matched ExactLine.meansHost ∧
          (DistanceMetric.euclidean = .euclidean → index.FindsItself ExactLine.meansHost)) ↔
        index.Settles ExactLine.meansHost) := by
  have start := @Reached.new _ _ ExactLine.meansHost 1 .euclidean { nlist := 2 }
  rcases addAll_reached start threePoints (by decide +kernel) with ⟨index, done, reached, _⟩
  have told : ((new 1 .euclidean { nlist := 2 }).addAll threePoints).toOption.any (fun index =>
      decide (index.liveEntries.map IvfEntry.vector = threePoints.map Prod.snd) &&
      decide (index.liveCount ≠ 0) && index.liveEntries.all (fun entry =>
        decide (ExactLine.meansHost.distance .euclidean entry.vector entry.vector =
          .ok (0 : WithTop Nat)))) = true := by
    decide +kernel
  rw [done] at told
  rcases Bool.and_eq_true_iff.mp told with ⟨told, self⟩
  rcases Bool.and_eq_true_iff.mp told with ⟨points, live⟩
  rcases partitions_matched_iff ExactLine.meansHost reached (of_decide_eq_true live)
    (fun entry member => of_decide_eq_true (List.all_eq_true.mp self entry member)) with
    ⟨built, ensured, iff_⟩
  exact ⟨index, built, of_decide_eq_true points, ensured, iff_⟩

end Search

section Cap

/-- The mean is not rounded: it times the number of members is their sum. -/
def MeanExact (vectors : List (List F32)) : Prop :=
  ExactLine.units ((ExactLine.mean vectors).headD 0) * vectors.length =
    (vectors.map (fun vec => ExactLine.units (vec.headD 0))).sum

def RoundsExact (vectors initial : List (List F32)) : Prop :=
  ∀ round < maxKMeansIterations, ∀ cell < initial.length,
    MeanExact (group vectors (cellOf ExactLine.meansHost
      ((lloyd ExactLine.meansHost vectors)^[round] initial)) cell)

instance (vectors initial : List (List F32)) : Decidable (RoundsExact vectors initial) :=
  inferInstanceAs (Decidable (∀ round < maxKMeansIterations, ∀ cell < initial.length, _ = _))

def evens : List (RecordId × List F32) :=
  (List.range 22).map (fun i => ([UInt8.ofNat (i + 1)], [ExactLine.whole (2 * i)]))

/-- From five cells at the left end the centroids still move after twelve rounds. -/
theorem lists_lag_behind :
    ∃ (index built : IvfIndex) (entry : IvfEntry) (candidates : List (Candidate (WithTop Nat)))
      (after : IvfIndex),
      Reached ExactLine.meansHost 1 .euclidean { nlist := 5 } index ∧
      index.liveEntries.map IvfEntry.vector = evens.map Prod.snd ∧
      RoundsExact (index.liveEntries.map IvfEntry.vector)
        ((index.drawn ExactLine.meansHost).map IvfEntry.vector) ∧
      index.ensurePartitionsBuilt ExactLine.meansHost = .ok built ∧
      ¬ built.Matched ExactLine.meansHost ∧ entry ∈ index.liveEntries ∧
      index.search ExactLine.meansHost entry.vector 1 { nprobe := 1 } = .ok (candidates, after) ∧
      ∀ found ∈ candidates, found.distance ≠ 0 := by
  have start := @Reached.new _ _ ExactLine.meansHost 1 .euclidean { nlist := 5 }
  rcases addAll_reached start evens (by decide +kernel) with ⟨index, done, reached, _⟩
  have told : ((new 1 .euclidean { nlist := 5 }).addAll evens).toOption.any (fun index =>
      decide (index.liveEntries.map IvfEntry.vector = evens.map Prod.snd) &&
      decide (RoundsExact (index.liveEntries.map IvfEntry.vector)
        ((index.drawn ExactLine.meansHost).map IvfEntry.vector)) &&
      (index.ensurePartitionsBuilt ExactLine.meansHost).toOption.any (fun built =>
        decide (¬ built.Matched ExactLine.meansHost)) &&
      index.liveEntries.any (fun entry =>
        (index.search ExactLine.meansHost entry.vector 1 { nprobe := 1 }).toOption.any
          (fun outcome => outcome.1.all (fun found => decide (found.distance ≠ 0))))) = true := by
    decide +kernel
  rw [done] at told
  rcases Bool.and_eq_true_iff.mp told with ⟨told, misses⟩
  rcases Bool.and_eq_true_iff.mp told with ⟨told, mismatched⟩
  rcases Bool.and_eq_true_iff.mp told with ⟨points, isExact⟩
  rcases ok_of_any mismatched with ⟨built, ensured, unmatched⟩
  rcases List.any_eq_true.mp misses with ⟨entry, member, misses⟩
  rcases ok_of_any misses with ⟨⟨candidates, after⟩, searched, misses⟩
  exact ⟨index, built, entry, candidates, after, reached, of_decide_eq_true points,
    of_decide_eq_true isExact, ensured, of_decide_eq_true unmatched, member, searched,
    fun found inside => of_decide_eq_true (List.all_eq_true.mp misses found inside)⟩

end Cap

end VectorVault.IvfIndex
