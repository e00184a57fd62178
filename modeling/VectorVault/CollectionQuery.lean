import VectorVault.EngineMemory

/-! What a query answers, whatever the index offers.

Distances are linearly ordered here. The ranking of a view lists all its records
by distance and identifier; an answer is checked against it. -/

namespace VectorVault

open FloatOrder MemoryAllocator

namespace Collection

variable {D : Type} [LinearOrder D] [OrderTop D] (host : Host D) {allocator : MemoryAllocator}
  {collection : Collection} {view : OrderedMap RecordId RecordView} {q : List F32} {k : UInt32}

def rank (neighbor : Neighbor D) : D ×ₗ RecordId := toLex (neighbor.distance, neighbor.id)

omit [LinearOrder D] [OrderTop D] in
theorem rank_injective {first second : Neighbor D} (same : rank first = rank second) :
    first = second := by
  have parts := Prod.ext_iff.mp (toLex.injective same)
  cases first
  cases second
  simp only at parts
  rw [parts.1, parts.2]

theorem neighborLt_iff (first second : Neighbor D) :
    neighborLt first second = true ↔ rank first < rank second := by
  rw [rank, rank, ← keyedLt_iff, neighborLt]
  simp only [keyedLt]
  by_cases same : eq first.distance second.distance = true
  · simp only [same, Bool.not_true, Bool.false_eq_true, if_false, decide_eq_true_eq]
  · simp only [same, Bool.not_false, if_true]

theorem sortBy_congr {first second : List (Neighbor D)} (permuted : first.Perm second) :
    sortBy neighborLt first = sortBy neighborLt second :=
  sortBy_eq_of_perm neighborLt rank neighborLt_iff (fun _ _ same => rank_injective same) permuted

/-- Every record of a view at its exact distance, in the order of answers. -/
def ranking (metric : DistanceMetric) (q : List F32)
    (view : OrderedMap RecordId RecordView) : List (Neighbor D) :=
  sortBy neighborLt (view.entries.map
    (fun entry => ⟨entry.1, host.distanceOr metric q entry.2.vector⟩))

/-- Neighbors that are records of the view at their exact distance. -/
def Exact (metric : DistanceMetric) (q : List F32) (view : OrderedMap RecordId RecordView)
    (results : List (Neighbor D)) : Prop :=
  ∀ neighbor ∈ results, ∃ record, view.find? neighbor.id = some record ∧
    neighbor.distance = host.distanceOr metric q record.vector

/-- What a query promises: as many neighbors as there can be, distinct stored
records at their exact distances, strictly ascending. -/
structure Answers (collection : Collection) (view : OrderedMap RecordId RecordView) (q : List F32)
    (k : UInt32) (results : List (Neighbor D)) : Prop where
  count : results.length = min k.toNat collection.recordCount
  distinct : (results.map Neighbor.id).Nodup
  exact : Exact host collection.config.metric q view results
  ascending : results.Pairwise (fun first second => first.distance < second.distance ∨
    first.distance = second.distance ∧ first.id < second.id)

section Scan

theorem exactDistance_eq (shows_ : collection.Shows allocator view) {id : RecordId}
    {slot : RecordSlot} (found : collection.records.find? id = some slot) :
    ∃ record, view.find? id = some record ∧ exactDistance host allocator collection q slot =
      .ok (host.distanceOr collection.config.metric q record.vector) := by
  obtain ⟨vec, read, known⟩ := shows_.slot found
  refine ⟨_, known, ?_⟩
  simp only [exactDistance, read]
  rfl

theorem scanAll_total (shows_ : collection.Shows allocator view)
    (entries : List (RecordId × RecordSlot))
    (held : ∀ entry ∈ entries, collection.records.find? entry.1 = some entry.2) :
    ∃ all, scanAll host allocator collection q entries = .ok all ∧
      all.map Neighbor.id = entries.map Prod.fst ∧
      Exact host collection.config.metric q view all := by
  induction entries with
  | nil => exact ⟨[], rfl, rfl, fun _ member => by cases member⟩
  | cons entry rest ih =>
      obtain ⟨id, slot⟩ := entry
      obtain ⟨record, known, distance⟩ :=
        @exactDistance_eq _ _ _ host _ _ _ q shows_ id slot (held (id, slot) List.mem_cons_self)
      obtain ⟨all, done, ids, exact_⟩ :=
        ih (fun other member => held other (List.mem_cons_of_mem (id, slot) member))
      refine ⟨⟨id, host.distanceOr collection.config.metric q record.vector⟩ :: all, ?_, ?_, ?_⟩
      · simp only [scanAll, distance, done, bind, Except.bind]
        rfl
      · rw [List.map_cons, List.map_cons, ids]
      · intro neighbor member
        rcases List.mem_cons.mp member with first | later
        · rw [first]
          exact ⟨record, known, rfl⟩
        · exact exact_ neighbor later

theorem ranking_eq {metric : DistanceMetric} {all : List (Neighbor D)}
    (exact_ : Exact host metric q view all) (ids : (all.map Neighbor.id).Perm view.keys) :
    sortBy neighborLt all = ranking host metric q view := by
  have nodup : all.Nodup := (ids.nodup_iff.mpr view.nodup_keys).of_map
  have listed : (view.entries.map (fun entry =>
      (⟨entry.1, host.distanceOr metric q entry.2.vector⟩ : Neighbor D))).Nodup := by
    apply List.Nodup.of_map Neighbor.id
    rw [List.map_map]
    exact view.nodup_keys
  apply sortBy_congr
  apply (List.perm_ext_iff_of_nodup nodup listed).mpr
  intro neighbor
  rw [List.mem_map]
  constructor
  · intro member
    obtain ⟨record, known, distance⟩ := exact_ neighbor member
    refine ⟨(neighbor.id, record), (OrderedMap.find_eq_some_iff _ _ _).mp known, ?_⟩
    rw [← distance]
  · intro member
    obtain ⟨⟨id, record⟩, inside, same⟩ := member
    have named : id ∈ all.map Neighbor.id :=
      ids.mem_iff.mpr (List.mem_map_of_mem inside)
    obtain ⟨other, present, isId⟩ := List.mem_map.mp named
    obtain ⟨held, known, distance⟩ := exact_ other present
    rw [isId, (OrderedMap.find_eq_some_iff _ _ _).mpr inside, Option.some.injEq] at known
    have equal : other = neighbor := by
      rw [← same]
      cases other
      simp only at isId distance
      rw [isId, distance, known]
    rw [← equal]
    exact present

end Scan

section Rerank

def delivered (collection : Collection) (candidates : List (Candidate D)) : List RecordId :=
  ((candidates.map Candidate.id).filter (fun id => collection.records.contains id)).dedup

/-- Induction over the candidates; `seen` are those already taken. -/
theorem rerank_total (shows_ : collection.Shows allocator view) (candidates : List (Candidate D))
    (seen : List RecordId) :
    ∃ results, rerank host allocator collection q candidates seen = .ok results ∧
      Exact host collection.config.metric q view results ∧ (results.map Neighbor.id).Nodup ∧
      ∀ id, id ∈ results.map Neighbor.id ↔
        id ∈ candidates.map Candidate.id ∧ collection.records.contains id = true ∧ id ∉ seen := by
  induction candidates generalizing seen with
  | nil => exact ⟨[], rfl, fun _ member => by (cases member), List.nodup_nil, fun id => by simp⟩
  | cons candidate rest ih =>
      cases found : collection.records.find? candidate.id with
      | none =>
          have missing : collection.records.contains candidate.id = false :=
            (OrderedMap.contains_eq_false_iff _ _).mpr found
          obtain ⟨results, done, exact_, nodup, members⟩ := ih seen
          refine ⟨results, by simp only [rerank, found]; exact done, exact_, nodup, ?_⟩
          intro id
          rw [members id, List.map_cons, List.mem_cons]
          constructor
          · intro inside
            exact ⟨Or.inr inside.1, inside.2⟩
          · intro inside
            rcases inside.1 with here | later
            · rw [here, missing] at inside
              exact absurd inside.2.1 Bool.false_ne_true
            · exact ⟨later, inside.2⟩
      | some slot =>
          have stored : collection.records.contains candidate.id = true :=
            (OrderedMap.contains_iff _ _).mpr ⟨slot, found⟩
          by_cases known : candidate.id ∈ seen
          · obtain ⟨results, done, exact_, nodup, members⟩ := ih seen
            refine ⟨results, by simp only [rerank, found, if_pos known]; exact done, exact_, nodup,
              ?_⟩
            intro id
            rw [members id, List.map_cons, List.mem_cons]
            constructor
            · intro inside
              exact ⟨Or.inr inside.1, inside.2⟩
            · intro inside
              rcases inside.1 with here | later
              · rw [here] at inside
                exact absurd known inside.2.2
              · exact ⟨later, inside.2⟩
          · obtain ⟨results, done, exact_, nodup, members⟩ := ih (candidate.id :: seen)
            obtain ⟨record, isRecord, distance⟩ :=
              @exactDistance_eq _ _ _ host _ _ _ q shows_ candidate.id slot found
            refine ⟨⟨candidate.id, host.distanceOr collection.config.metric q record.vector⟩ ::
              results, ?_, ?_, ?_, ?_⟩
            · simp only [rerank, found, if_neg known, distance, done, bind, Except.bind]
              rfl
            · intro neighbor member
              rcases List.mem_cons.mp member with first | later
              · rw [first]
                exact ⟨record, isRecord, rfl⟩
              · exact exact_ neighbor later
            · rw [List.map_cons, List.nodup_cons]
              refine ⟨?_, nodup⟩
              intro again
              exact ((members candidate.id).mp again).2.2 List.mem_cons_self
            · intro id
              rw [List.map_cons, List.mem_cons, members id, List.map_cons, List.mem_cons,
                List.mem_cons, not_or]
              by_cases here : id = candidate.id
              · rw [here]
                exact iff_of_true (Or.inl rfl) ⟨Or.inl rfl, stored, known⟩
              · simp only [here, false_or, not_false_eq_true, true_and]

omit [LinearOrder D] [OrderTop D] in
theorem rerank_delivered (candidates : List (Candidate D)) {results : List (Neighbor D)}
    (nodup : (results.map Neighbor.id).Nodup)
    (members : ∀ id, id ∈ results.map Neighbor.id ↔
      id ∈ candidates.map Candidate.id ∧ collection.records.contains id = true ∧ id ∉ []) :
    results.length = (collection.delivered candidates).length := by
  have same : (results.map Neighbor.id).Perm (collection.delivered candidates) := by
    apply (List.perm_ext_iff_of_nodup nodup (List.nodup_dedup _)).mpr
    intro id
    rw [members id, List.mem_dedup, List.mem_filter]
    simp
  rw [← List.length_map Neighbor.id]
  exact same.length_eq

end Rerank

section Answer

variable {host}

theorem answers_of_nearest {all : List (Neighbor D)}
    (exact_ : Exact host collection.config.metric q view all)
    (distinct : (all.map Neighbor.id).Nodup)
    (enough : min k.toNat all.length = min k.toNat collection.recordCount) :
    Answers host collection view q k (nearest k all) := by
  have permuted := sortBy_perm neighborLt all
  have nodup : ((sortBy neighborLt all).map Neighbor.id).Nodup :=
    ((permuted.map Neighbor.id).nodup_iff).mpr distinct
  have sorted := sortBy_pairwise neighborLt rank neighborLt_iff all
  have prefix_ : (nearest k all).Sublist (sortBy neighborLt all) := List.take_sublist _ _
  refine ⟨?_, (prefix_.map Neighbor.id).nodup nodup, ?_, ?_⟩
  · rw [nearest, List.length_take, length_sortBy]
    exact enough
  · intro neighbor member
    exact exact_ neighbor (permuted.mem_iff.mp (prefix_.subset member))
  · have apart : (nearest k all).Pairwise (fun first second => first.id ≠ second.id) :=
      List.pairwise_map.mp ((prefix_.map Neighbor.id).nodup nodup)
    refine (apart.and (sorted.sublist prefix_)).imp ?_
    intro first second both
    have less : rank first < rank second := by
      apply lt_of_le_of_ne both.2
      intro same
      exact both.1 (congrArg Neighbor.id (rank_injective same))
    exact (Prod.Lex.toLex_lt_toLex).mp less

theorem scanAll_ranked (shows_ : collection.Shows allocator view) :
    ∃ all, scanAll host allocator collection q collection.records.entries = .ok all ∧
      all.map Neighbor.id = collection.records.keys ∧
      Exact host collection.config.metric q view all ∧
      nearest k all = (ranking host collection.config.metric q view).take k.toNat := by
  obtain ⟨all, done, ids, exact_⟩ := @scanAll_total _ _ _ host _ _ _ q shows_
    collection.records.entries (fun entry member => (OrderedMap.find_eq_some_iff _ _ _).mpr member)
  have keys : (all.map Neighbor.id).Perm view.keys := List.Perm.of_eq (ids.trans shows_.keys)
  exact ⟨all, done, ids, exact_, by rw [nearest, ranking_eq host exact_ keys]⟩

theorem scan_answers (stored : collection.Stored allocator [])
    (shows_ : collection.Shows allocator view) :
    ∃ all, scanAll host allocator collection q collection.records.entries = .ok all ∧
      Answers host collection view q k (nearest k all) ∧
      nearest k all = (ranking host collection.config.metric q view).take k.toNat := by
  obtain ⟨all, done, isKeys, exact_, isRanking⟩ :=
    @scanAll_ranked _ _ _ host _ _ _ q k shows_
  have distinct : (all.map Neighbor.id).Nodup := by
    rw [isKeys]
    exact collection.records.nodup_keys
  have length : all.length = collection.recordCount := by
    rw [stored.counted, ← OrderedMap.size_keys, ← isKeys, List.length_map]
  exact ⟨all, done, answers_of_nearest exact_ distinct (by rw [length]), isRanking⟩

theorem firstNonFinite_eq {vec : List F32}
    (finite : ∀ component ∈ vec, component.isFinite = true) : firstNonFinite vec = vec.length := by
  apply List.findIdx_eq_length.mpr
  intro component member
  simp [finite component member]

theorem rejectQuery_valid {config : CollectionConfig}
    (sized : q.length = config.dimensionality.toNat)
    (finite : ∀ component ∈ q, component.isFinite = true) (positive : 1 ≤ k) :
    rejectQuery config q k = none := by
  rw [rejectQuery, if_neg (UInt32.not_lt.mpr positive), if_neg (not_not.mpr sized),
    if_neg (not_not.mpr (firstNonFinite_eq finite))]

variable (host) in
theorem queryWith_answers (stored : collection.Stored allocator [])
    (shows_ : collection.Shows allocator view)
    (pick : Index → List F32 → UInt32 → QueryParams → List (Candidate D) × Index)
    (sized : q.length = collection.config.dimensionality.toNat)
    (finite : ∀ component ∈ q, component.isFinite = true) (positive : 1 ≤ k)
    (params : QueryParams) :
    ∃ results after, queryWith host (fun index q k params => .ok (pick index q k params)) allocator
        collection q k params = .ok (.ok results, after) ∧
      Answers host collection view q k results ∧
      ((∀ index, collection.index = some index → collection.indexType ≠ .none →
          k.toNat < collection.recordCount →
            (collection.delivered (pick index q k params).1).length < k.toNat) →
        results = (ranking host collection.config.metric q view).take k.toNat) := by
  have valid := rejectQuery_valid sized finite positive
  obtain ⟨all, scanned, answers, isRanking⟩ := @scan_answers _ _ _ host _ _ _ q k stored shows_
  by_cases empty : collection.recordCount = 0
  · have none : view.entries = [] := by
      apply List.length_eq_zero_iff.mp
      rw [← empty, stored.counted]
      exact shows_.size
    refine ⟨[], collection, by simp only [queryWith, valid, if_pos empty]; rfl, ⟨?_, List.nodup_nil,
      fun _ member => by (cases member), List.Pairwise.nil⟩, fun _ => ?_⟩
    · rw [empty, Nat.min_zero, List.length_nil]
    · have length := length_sortBy neighborLt (view.entries.map (fun entry =>
        (⟨entry.1, host.distanceOr collection.config.metric q entry.2.vector⟩ : Neighbor D)))
      rw [none, List.map_nil, List.length_nil] at length
      rw [ranking, none, List.map_nil, List.length_eq_zero_iff.mp length, List.take_nil]
  · cases held : collection.index with
    | none =>
        refine ⟨nearest k all, collection, ?_, answers, fun _ => isRanking⟩
        simp only [queryWith, valid, if_neg empty, held, scanned]
        rfl
    | some index =>
        by_cases searched : collection.indexType ≠ .none ∧ k.toNat < collection.recordCount
        · have fewer := searched.2
          obtain ⟨results, reranked, exact_, distinct, members⟩ :=
            @rerank_total _ _ _ host _ _ _ q shows_ (pick index q k params).1 []
          have length := rerank_delivered _ distinct members
          by_cases under : results.length < min k.toNat collection.recordCount
          · refine ⟨nearest k all, { collection with index := some (pick index q k params).2 }, ?_,
              answers, fun _ => isRanking⟩
            simp only [queryWith, valid, if_neg empty, held, if_pos searched, bind, Except.bind, answer,
              reranked, if_pos under, scanned]
            rfl
          · refine ⟨nearest k results, { collection with index := some (pick index q k params).2 },
              ?_, answers_of_nearest exact_ distinct (by omega), fun short => ?_⟩
            · simp only [queryWith, valid, if_neg empty, held, if_pos searched, bind, Except.bind,
                answer, reranked, if_neg under]
              rfl
            · have less := short index rfl searched.1 fewer
              omega
        · refine ⟨nearest k all, collection, ?_, answers, fun _ => isRanking⟩
          simp only [queryWith, valid, if_neg empty, held, if_neg searched, scanned]
          rfl

end Answer

end Collection

namespace World

open Collection

/-- Queries of a registered collection after any commands, whatever its index picks. -/
theorem query_answers {D : Type} [LinearOrder D] [OrderTop D] {host : Host D} {capacity : UInt64}
    {garbage : Nat → UInt8} {commands : List Command} {statuses : List Status} {world : World}
    (done : (new capacity garbage).run host commands = .ok (statuses, world)) {name : Bytes}
    {collection : Collection} (found : world.engine.collections.find? name = some collection)
    (pick : Index → List F32 → UInt32 → QueryParams → List (Candidate D) × Index) {q : List F32}
    {k : UInt32} (sized : q.length = collection.config.dimensionality.toNat)
    (finite : ∀ component ∈ q, component.isFinite = true) (positive : 1 ≤ k)
    (params : QueryParams) :
    ∃ view results after, collection.Shows world.engine.allocator view ∧
      queryWith host (fun index q k params => .ok (pick index q k params)) world.engine.allocator
        collection q k params = .ok (.ok results, after) ∧
      Answers host collection view q k results ∧
      ((∀ index, collection.index = some index → collection.indexType ≠ .none →
          k.toNat < collection.recordCount →
            (collection.delivered (pick index q k params).1).length < k.toNat) →
        results = (ranking host collection.config.metric q view).take k.toNat) := by
  have owned := run_owned (Engine.new_owned capacity garbage) done
  have stored := owned.stored name collection found
  obtain ⟨view, shows_⟩ := stored.shows owned.sound
  obtain ⟨results, after, answered, answers, complete⟩ :=
    queryWith_answers host stored shows_ pick sized finite positive params
  exact ⟨view, results, after, shows_, answered, answers, complete⟩

def graphRun : List Command :=
  [.createCollection [97] 1 0, .insert [97] [1] [0] none, .insert [97] [2] [30] none,
    .insert [97] [3] [10] none, .insert [97] [4] [20] none, .buildIndex [97] .hnsw {},
    .remove [97] [2]]

/-- A record twice, one that never was, one that is gone, and distances that are wrong. -/
def badCandidates : List (Candidate (WithTop Nat)) :=
  [⟨[4], 0⟩, ⟨[4], 7⟩, ⟨[9], 0⟩, ⟨[2], 0⟩, ⟨[3], 99⟩]

/-- All of the bad candidates make up two neighbors; the first four do not, and the query
falls back to the records. -/
theorem query_answers_of_bad_candidates :
    ∃ statuses world collection view viewToo results scanned after afterScan,
      (new 512 (fun _ => 0)).run (ExactLine.host []) graphRun = .ok (statuses, world) ∧
      world.engine.collections.find? [97] = some collection ∧
      collection.index.isSome ∧ collection.indexType = .hnsw ∧ collection.recordCount = 3 ∧
      collection.Shows world.engine.allocator view ∧
      queryWith (ExactLine.host []) (fun index _ _ _ => .ok (badCandidates, index))
        world.engine.allocator collection [9] 2 {} = .ok (.ok results, after) ∧
      Answers (ExactLine.host []) collection view [9] 2 results ∧
      queryWith (ExactLine.host []) (fun index _ _ _ => .ok (badCandidates.take 4, index))
        world.engine.allocator collection [9] 2 {} = .ok (.ok scanned, afterScan) ∧
      collection.Shows world.engine.allocator viewToo ∧
      scanned = (ranking (ExactLine.host []) collection.config.metric [9] viewToo).take 2 := by
  have reaches : ∃ statuses world collection,
      (new 512 (fun _ => 0)).run (ExactLine.host []) graphRun = .ok (statuses, world) ∧
      world.engine.collections.find? [97] = some collection ∧
      decide (collection.config.dimensionality = 1 ∧ collection.index.isSome = true ∧
        collection.indexType = .hnsw ∧ collection.recordCount = 3 ∧
        collection.delivered (badCandidates.take 4) = [[4]]) = true :=
    exists_of_reached (by decide +kernel)
  rcases reaches with ⟨statuses, world, collection, done, found, told⟩
  rcases of_decide_eq_true told with ⟨dimensionality, indexed, type, count, short⟩
  have sized : [(9 : F32)].length = collection.config.dimensionality.toNat := by
    rw [dimensionality]
    rfl
  rcases query_answers done found (fun index _ _ _ => (badCandidates, index)) sized
    (List.forall_mem_singleton.mpr rfl) (show (1 : UInt32) ≤ 2 by decide) {} with
    ⟨view, results, after, shows_, answered, answers, _⟩
  rcases query_answers done found (fun index _ _ _ => (badCandidates.take 4, index)) sized
    (List.forall_mem_singleton.mpr rfl) (show (1 : UInt32) ≤ 2 by decide) {} with
    ⟨viewToo, scanned, afterScan, showsToo, answeredToo, _, complete⟩
  have fallsBack := complete (fun index _ _ _ => by rw [short]; decide)
  exact ⟨statuses, world, collection, view, viewToo, results, scanned, after, afterScan, done,
    found, indexed, type, count, shows_, answered, answers, answeredToo, showsToo, fallsBack⟩

end World

end VectorVault
