import VectorVault.CollectionQuery
import VectorVault.CollectionRelations
import VectorVault.IvfExhaustive
import VectorVault.LoadedIndex

/-! Queries of a collection with an inverted file, every cell probed.

The index has the live vectors and a partitioning that is stale or of them, in
every run. Its `k` best candidates are then the `k` nearest records. -/

namespace VectorVault

open FloatOrder

namespace Collection

section Partitioned

variable {D : Type} [FloatOrder D] (host : Host D)

/-- An inverted file with just the vectors stored, and no outdated cells. -/
def Partitioned (config : CollectionConfig) (_ : IndexType) (index : Index)
    (vectors : RecordId → Option (List F32)) : Prop :=
  ∀ file, index = .ivf file → file.Kept host ∧ file.dimensionality = config.dimensionality ∧
    file.metric = config.metric ∧ ∀ id, file.roster.vectorOf id = vectors id

variable {host} {config : CollectionConfig} {type : IndexType} {before after : IvfIndex}
  {vectors : RecordId → Option (List F32)}

theorem Partitioned.graph (graph : HnswIndex) : Partitioned host config type (.hnsw graph) vectors := by
  intro file isFile
  cases isFile

theorem Partitioned.empty (params : IndexParams) : Partitioned host config type
    (.ivf (IvfIndex.new config.dimensionality config.metric params)) (fun _ => none) := by
  intro file isFile
  cases isFile
  exact ⟨⟨IvfIndex.new_wellFormed _ _ _, IvfIndex.fresh_of_dirty host rfl⟩, rfl, rfl, fun _ => rfl⟩

theorem Partitioned.next {next : RecordId → Option (List F32)}
    (holds : Partitioned host config type (.ivf before) vectors) (kept : after.Kept host)
    (settings : after.settings = before.settings)
    (same : ∀ id, after.roster.vectorOf id = next id) :
    Partitioned host config type (.ivf after) next := by
  intro file isFile
  cases isFile
  rcases holds before rfl with ⟨_, dimensionality, metric, _⟩
  exact ⟨kept, (congrArg Prod.fst settings).trans dimensionality,
    (congrArg (fun parts => parts.2.1) settings).trans metric, same⟩

variable (host)

theorem partitioned_maintained : Maintained host False (Partitioned host) := by
  constructor
  · intro config type params _
    cases type with
    | hnsw => exact Partitioned.graph _
    | ivf => exact Partitioned.empty params
    | none => exact Partitioned.empty params
  · intro config type index after vectors id vec status holds named sized added
    refine ⟨False.elim, ?_⟩
    cases index with
    | hnsw graph =>
        rcases bind_ok added with ⟨_, _, done⟩
        cases done
        exact Partitioned.graph _
    | ivf before =>
        rcases bind_ok added with ⟨⟨_, grown⟩, inner, done⟩
        cases done
        rcases holds before rfl with ⟨kept, dimensionality, _, same⟩
        rcases kept.add host inner with ⟨keptAfter, settings⟩
        rw [← dimensionality] at sized
        rcases kept.wellFormed.add_roster named sized with ⟨final, result, _, _, vectorsAfter⟩
        rw [inner] at result
        cases result
        apply holds.next keptAfter settings
        intro other
        rw [vectorsAfter other, same]
  · intro config type index after vectors id status holds stored removed
    refine ⟨False.elim, ?_⟩
    cases index with
    | hnsw graph =>
        rcases bind_ok removed with ⟨_, _, done⟩
        cases done
        exact Partitioned.graph _
    | ivf before =>
        rcases bind_ok removed with ⟨⟨_, shrunk⟩, inner, done⟩
        cases done
        rcases holds before rfl with ⟨kept, _, _, same⟩
        rcases kept.remove host inner with ⟨keptAfter, settings⟩
        rcases Option.ne_none_iff_exists'.mp stored with ⟨vec, isVec⟩
        rcases kept.wellFormed.remove_roster ((same id).trans isVec) with
          ⟨final, result, _, _, vectorsAfter⟩
        rw [inner] at result
        cases result
        apply holds.next keptAfter settings
        intro other
        rw [vectorsAfter other, same]
  · intro config type index after vectors q k params candidates holds searched
    cases index with
    | hnsw graph =>
        rcases bind_ok searched with ⟨_, _, done⟩
        cases done
        exact Partitioned.graph _
    | ivf before =>
        rcases bind_ok searched with ⟨⟨_, next⟩, inner, done⟩
        cases done
        rcases holds before rfl with ⟨kept, _, _, same⟩
        rcases kept.search host inner with ⟨keptAfter, settings⟩
        rcases IvfIndex.search_rest host inner with ⟨roster, _⟩
        apply holds.next keptAfter settings
        rw [roster]
        exact same

variable {host} {allocator : MemoryAllocator} {collection : Collection}
  {view : OrderedMap RecordId RecordView}

theorem rebuildIvf_partitioned {path : Bytes} (shows_ : collection.Shows allocator view)
    (named : collection.records.find? [] = none) {params : IndexParams} {rebuilt : IvfIndex}
    (done : PersistenceManager.rebuildIvf path allocator collection collection.records.entries
      (IvfIndex.new collection.config.dimensionality collection.config.metric params) =
        .ok (.ok rebuilt)) :
    Partitioned host collection.config .ivf (.ivf rebuilt) (vectorsOf view) := by
  have maintained := partitioned_maintained host
  have listed : ∀ entry ∈ collection.records.entries,
      collection.records.find? entry.1 = some entry.2 :=
    fun entry member => (OrderedMap.find_eq_some_iff _ _ _).mpr member
  obtain ⟨sound, _⟩ := newIndex_sound collection.config .ivf params
  obtain ⟨final, populated, _⟩ := populate_total host shows_ named collection.records.entries listed
    sound
  obtain ⟨again, isFinal, result⟩ :=
    PersistenceManager.rebuildIvf_of_populate host path _ populated
  rw [done] at result
  cases result
  have holds := populate_related maintained shows_ named _ listed
    (maintained.start collection.config .ivf params (by decide)) populated
  rw [vectorsOf_listed shows_, isFinal] at holds
  exact holds

theorem load_partitioned {path : Bytes} {file : PersistenceManager.SnapshotFile} {tag : Nat}
    (loaded : PersistenceManager.load path allocator file tag = .ok (.ok collection)) :
    ∃ view, collection.Shows allocator view ∧
      collection.Related False (Partitioned host) view := by
  obtain ⟨preamble, records, reader, stages⟩ := PersistenceManager.load_ok loaded
  obtain ⟨view, shows_⟩ := stages.shows
  refine ⟨view, shows_, ?_⟩
  have index := stages.indexRead
  generalize isType : collection.indexType = type at index
  generalize isHeld : collection.index = held at index
  constructor
  · intro nothing
    rw [isHeld] at nothing
    rw [nothing] at index
    cases index
    exact isType
  · intro other isOther file isFile
    rw [isHeld] at isOther
    rw [isOther, isFile] at index
    cases index with
    | ivf _ built => exact rebuildIvf_partitioned shows_ stages.named built file rfl
  · exact False.elim

end Partitioned

section Answers

variable {D : Type} [LinearOrder D] [OrderTop D] {host : Host D} {allocator : MemoryAllocator}
  {collection : Collection} {view : OrderedMap RecordId RecordView} {q : List F32} {k : UInt32}
  {params : QueryParams}

def neighborOf (candidate : Candidate D) : Neighbor D := ⟨candidate.id, candidate.distance⟩

theorem exact_perm {metric : DistanceMetric} {first second : List (Neighbor D)}
    (exactFirst : Exact host metric q view first) (exactSecond : Exact host metric q view second)
    (distinct : (first.map Neighbor.id).Nodup)
    (same : (first.map Neighbor.id).Perm (second.map Neighbor.id)) : first.Perm second := by
  have determined : ∀ {some_ other : List (Neighbor D)}, Exact host metric q view some_ →
      Exact host metric q view other → (∀ id ∈ some_.map Neighbor.id, id ∈ other.map Neighbor.id) →
      ∀ neighbor ∈ some_, neighbor ∈ other := by
    intro some_ other exactSome exactOther inside neighbor member
    obtain ⟨twin, there, isId⟩ := List.mem_map.mp (inside _ (List.mem_map_of_mem member))
    obtain ⟨record, known, distance⟩ := exactSome neighbor member
    obtain ⟨again, knownAgain, distanceAgain⟩ := exactOther twin there
    rw [isId, known, Option.some.injEq] at knownAgain
    have equal : twin = neighbor := by
      cases twin
      cases neighbor
      simp only at isId distance distanceAgain
      rw [isId, distance, distanceAgain, knownAgain]
    rw [← equal]
    exact there
  apply (List.perm_ext_iff_of_nodup distinct.of_map (same.nodup_iff.mp distinct).of_map).mpr
  intro neighbor
  constructor
  · exact determined exactFirst exactSecond (fun id member => same.mem_iff.mp member) neighbor
  · exact determined exactSecond exactFirst (fun id member => same.mem_iff.mpr member) neighbor

theorem sortBy_candidates (candidates : List (Candidate D)) :
    sortBy neighborLt (candidates.map neighborOf) =
      (sortBy HnswIndex.candidateLt candidates).map neighborOf :=
  (List.map_insertionSort _ _ neighborOf candidates (fun _ _ _ _ => Iff.rfl)).symm

/-- What a scan of a view finds: its first `k` records by distance and identifier. -/
structure ScanOf (host : Host D) (metric : DistanceMetric) (view : OrderedMap RecordId RecordView)
    (q : List F32) (k : Nat) (results : List (Neighbor D)) : Prop where
  count : results.length = min k view.entries.length
  exact : Exact host metric q view results
  ascending : results.Pairwise (fun first second => first.distance < second.distance ∨
    first.distance = second.distance ∧ first.id < second.id)
  nearest : ∀ id record, view.find? id = some record → id ∉ results.map Neighbor.id →
    ∀ neighbor ∈ results, neighbor.distance < host.distanceOr metric q record.vector ∨
      neighbor.distance = host.distanceOr metric q record.vector ∧ neighbor.id < id

theorem mem_ranking (metric : DistanceMetric) (neighbor : Neighbor D) :
    neighbor ∈ ranking host metric q view ↔ ∃ record, view.find? neighbor.id = some record ∧
      neighbor.distance = host.distanceOr metric q record.vector := by
  rw [ranking, mem_sortBy, List.mem_map]
  constructor
  · rintro ⟨⟨id, record⟩, member, same⟩
    rw [← same]
    exact ⟨record, (OrderedMap.find_eq_some_iff _ _ _).mpr member, rfl⟩
  · rintro ⟨record, found, distance⟩
    refine ⟨(neighbor.id, record), (OrderedMap.find_eq_some_iff _ _ _).mp found, ?_⟩
    rw [← distance]

theorem ranking_ascending (metric : DistanceMetric) :
    (ranking host metric q view).Pairwise (fun first second => rank first < rank second) := by
  have listed : (ranking host metric q view).map Neighbor.id |>.Nodup := by
    have permuted := (sortBy_perm neighborLt (view.entries.map (fun entry =>
      (⟨entry.1, host.distanceOr metric q entry.2.vector⟩ : Neighbor D)))).map Neighbor.id
    apply permuted.nodup_iff.mpr
    rw [List.map_map]
    exact view.nodup_keys
  have sorted := sortBy_pairwise neighborLt rank neighborLt_iff (view.entries.map (fun entry =>
    (⟨entry.1, host.distanceOr metric q entry.2.vector⟩ : Neighbor D)))
  apply ((List.pairwise_map.mp listed).and sorted).imp
  intro first second both
  apply lt_of_le_of_ne both.2
  intro same
  exact both.1 (congrArg Neighbor.id (rank_injective same))

theorem ranking_scanOf (metric : DistanceMetric) (k : Nat) :
    ScanOf host metric view q k ((ranking host metric q view).take k) := by
  have ascending : (ranking host metric q view).Pairwise (fun first second =>
      first.distance < second.distance ∨
        first.distance = second.distance ∧ first.id < second.id) :=
    (ranking_ascending metric).imp (fun less => Prod.Lex.toLex_lt_toLex.mp less)
  refine ⟨?_, ?_, ascending.sublist (List.take_sublist _ _), ?_⟩
  · rw [List.length_take, ranking, length_sortBy, List.length_map]
  · intro neighbor member
    exact (mem_ranking metric neighbor).mp (List.mem_of_mem_take member)
  · intro id record found outside neighbor member
    have ranked : ⟨id, host.distanceOr metric q record.vector⟩ ∈ ranking host metric q view :=
      (mem_ranking metric _).mpr ⟨record, found, rfl⟩
    rw [← List.take_append_drop k (ranking host metric q view)] at ranked ascending
    rcases List.mem_append.mp ranked with inside | later
    · exact absurd (List.mem_map_of_mem inside) outside
    · exact (List.pairwise_append.mp ascending).2.2 neighbor member _ later

theorem nearest_ranked (metric : DistanceMetric) (results : List (Neighbor D))
    (permuted : results.Perm ((ranking host metric q view).take k.toNat)) :
    nearest k results = (ranking host metric q view).take k.toNat := by
  have sorted : ((ranking host metric q view).take k.toNat).Pairwise
      (fun first second => rank first ≤ rank second) :=
    (sortBy_pairwise neighborLt rank neighborLt_iff _).sublist (List.take_sublist _ _)
  have fixed : sortBy neighborLt ((ranking host metric q view).take k.toNat) =
      (ranking host metric q view).take k.toNat := by
    apply List.Pairwise.insertionSort_eq
    apply sorted.imp
    intro first second atMost
    rw [Bool.eq_false_iff, ne_eq, neighborLt_iff]
    exact not_lt.mpr atMost
  rw [nearest, sortBy_congr permuted, fixed, List.take_take, Nat.min_self]

theorem scored_ranking {file : IvfIndex} (wellFormed : file.WellFormed)
    (metric : file.metric = collection.config.metric)
    (same : ∀ id, file.roster.vectorOf id = vectorsOf view id) :
    ((file.scored host q).map Candidate.id).Perm view.keys ∧
      sortBy neighborLt ((file.scored host q).map neighborOf) =
        ranking host collection.config.metric q view := by
  have ids : (file.scored host q).map Candidate.id = file.liveEntries.map IvfEntry.id := by
    rw [IvfIndex.scored, List.map_map]
    rfl
  have live : ∀ entry ∈ file.liveEntries, file.roster.vectorOf entry.id = some entry.vector := by
    intro entry member
    obtain ⟨inside, alive⟩ := List.mem_filter.mp member
    exact (wellFormed.sound.vectorOf_iff _ _).mpr ⟨entry, inside, rfl, by simpa using alive, rfl⟩
  have distinct : (file.liveEntries.map IvfEntry.id).Nodup :=
    (List.filter_sublist.map IvfEntry.id).nodup wellFormed.sound.nodup_ids
  have permuted : ((file.scored host q).map Candidate.id).Perm view.keys := by
    rw [ids]
    apply (List.perm_ext_iff_of_nodup distinct view.nodup_keys).mpr
    intro id
    rw [OrderedMap.mem_keys_iff, List.mem_map]
    constructor
    · rintro ⟨entry, member, rfl⟩
      have held := live entry member
      rw [same, vectorsOf] at held
      obtain ⟨record, known, _⟩ := Option.map_eq_some_iff.mp held
      exact ⟨record, known⟩
    · rintro ⟨record, known⟩
      have held : file.roster.vectorOf id = some record.vector := by
        rw [same, vectorsOf, known]
        rfl
      obtain ⟨entry, inside, isId, alive, _⟩ := (wellFormed.sound.vectorOf_iff _ _).mp held
      exact ⟨entry, List.mem_filter.mpr ⟨inside, by simp [alive]⟩, isId⟩
  refine ⟨permuted, ?_⟩
  apply ranking_eq
  · intro neighbor member
    obtain ⟨candidate, scored, isNeighbor⟩ := List.mem_map.mp member
    obtain ⟨entry, inside, isCandidate⟩ := List.mem_map.mp scored
    have held := live entry inside
    rw [same, vectorsOf] at held
    obtain ⟨record, known, isVector⟩ := Option.map_eq_some_iff.mp held
    rw [← isNeighbor, ← isCandidate, metric, ← isVector]
    exact ⟨record, known, rfl⟩
  · rw [List.map_map]
    exact permuted

theorem scanAll_unindexed (entries : List (RecordId × RecordSlot)) :
    scanAll host allocator { collection with index := none } q entries =
      scanAll host allocator collection q entries := by
  induction entries with
  | nil => rfl
  | cons entry rest ih =>
      simp only [scanAll, ih]
      rfl

theorem answer_exhaustive (stored : collection.Stored allocator [])
    (shows_ : collection.Shows allocator view) {file : IvfIndex} (wellFormed : file.WellFormed)
    (metric : file.metric = collection.config.metric)
    (same : ∀ id, file.roster.vectorOf id = vectorsOf view id)
    (fewer : k.toNat < collection.recordCount) :
    answer host allocator collection q k
        ((sortBy HnswIndex.candidateLt (file.scored host q)).take k.toNat) =
      .ok ((ranking host collection.config.metric q view).take k.toNat) := by
  obtain ⟨ids, isRanking⟩ := @scored_ranking D _ _ host collection view q file wellFormed metric same
  rw [sortBy_candidates] at isRanking
  have isTop : ((sortBy HnswIndex.candidateLt (file.scored host q)).take k.toNat).map neighborOf =
      (ranking host collection.config.metric q view).take k.toNat := by
    rw [List.map_take, isRanking]
  have count : (file.scored host q).length = collection.recordCount := by
    calc (file.scored host q).length = view.keys.length := by
          rw [← ids.length_eq, List.length_map]
      _ = view.size := view.size_keys
      _ = collection.recordCount := by rw [shows_.size, stored.counted]
  have length : ((sortBy HnswIndex.candidateLt (file.scored host q)).take k.toNat).length =
      k.toNat := by
    rw [List.length_take, length_sortBy, count]
    exact Nat.min_eq_left fewer.le
  have topIds : (((sortBy HnswIndex.candidateLt (file.scored host q)).take k.toNat).map
      Candidate.id).Sublist ((sortBy HnswIndex.candidateLt (file.scored host q)).map Candidate.id) :=
    (List.take_sublist _ _).map _
  have sortedIds := ((sortBy_perm HnswIndex.candidateLt (file.scored host q)).map
    Candidate.id).trans ids
  have nodup := topIds.nodup (sortedIds.nodup_iff.mpr view.nodup_keys)
  obtain ⟨results, reranked, exact_, distinct, members⟩ := @rerank_total D _ _ host allocator
    collection view q shows_ ((sortBy HnswIndex.candidateLt (file.scored host q)).take k.toNat) []
  have allStored : ∀ id ∈ ((sortBy HnswIndex.candidateLt (file.scored host q)).take k.toNat).map
      Candidate.id, collection.records.contains id = true := by
    intro id member
    have known := sortedIds.mem_iff.mp (topIds.subset member)
    rw [OrderedMap.mem_keys_iff] at known
    rw [OrderedMap.contains_iff, ← Option.ne_none_iff_exists', ne_eq, ← shows_.find_iff id]
    exact Option.ne_none_iff_exists'.mpr known
  have sameIds : (results.map Neighbor.id).Perm
      (((sortBy HnswIndex.candidateLt (file.scored host q)).take k.toNat).map Candidate.id) := by
    apply (List.perm_ext_iff_of_nodup distinct nodup).mpr
    intro id
    rw [members id]
    constructor
    · exact fun held => held.1
    · exact fun member => ⟨member, allStored id member, List.not_mem_nil⟩
  have enough : ¬ results.length < min k.toNat collection.recordCount := by
    have lengths := sameIds.length_eq
    rw [List.length_map, List.length_map, length] at lengths
    omega
  have exactTop : Exact host collection.config.metric q view
      ((ranking host collection.config.metric q view).take k.toNat) := by
    intro neighbor member
    exact (mem_ranking _ neighbor).mp (List.mem_of_mem_take member)
  have permuted : results.Perm ((ranking host collection.config.metric q view).take k.toNat) := by
    apply exact_perm exact_ exactTop distinct
    rw [← isTop, List.map_map]
    exact sameIds
  simp only [answer, reranked, bind, Except.bind, if_neg enough]
  rw [nearest_ranked _ _ permuted]
  rfl

end Answers

end Collection

namespace World

open Collection

variable {D : Type} [LinearOrder D] [OrderTop D] {host : Host D}

/-- In any run, with as many probes as there are cells, the inverted file answers
what a scan of the records finds, and what the query answers without the index. -/
theorem query_exhaustive {capacity : UInt64} {garbage : Nat → UInt8} {commands : List Command}
    {statuses : List Status} {world : World}
    (done : (new capacity garbage).run host commands = .ok (statuses, world)) {name : Bytes}
    {collection : Collection} (found : world.engine.collections.find? name = some collection)
    {file : IvfIndex} (held : collection.index = some (.ivf file)) (q : List F32) (k : UInt32)
    (params : QueryParams)
    (every : ∀ built, file.ensurePartitionsBuilt host = .ok built →
      built.centroids.length ≤ params.nprobe.toNat) :
    ∃ view answer after, collection.Shows world.engine.allocator view ∧
      collection.query host world.engine.allocator q k params = .ok (answer, after) ∧
      (∀ error, rejectQuery collection.config q k = some error → answer = .error error) ∧
      (rejectQuery collection.config q k = none → ∃ results, answer = .ok results ∧
        ScanOf host collection.config.metric view q k.toNat results) ∧
      Collection.query host world.engine.allocator { collection with index := none } q k params =
        .ok (answer, { collection with index := none }) := by
  obtain ⟨owned, each⟩ := run_each new_related
    (fun _ _ _ _ _ operated sound stored shows_ related =>
      operated.related (partitioned_maintained host) sound stored shows_ related)
    (fun _ _ _ _ _ loaded => load_partitioned loaded) done
  obtain ⟨view, shows_, related⟩ := each name collection found
  have stored := owned.stored name collection found
  obtain ⟨kept, _, metric, same⟩ := related.holds _ held file rfl
  cases valid : rejectQuery collection.config q k with
  | some error =>
      refine ⟨view, .error error, collection, shows_, ?_, ?_, fun none => (by cases none), ?_⟩
      · simp only [query, queryWith, valid]
        rfl
      · intro other isOther
        rw [Option.some.inj isOther]
      · simp only [query, queryWith, valid]
        rfl
  | none =>
      have scan := @ranking_scanOf D _ _ host view q collection.config.metric k.toNat
      by_cases empty : collection.recordCount = 0
      · have nothing : view.entries = [] := by
          apply List.length_eq_zero_iff.mp
          rw [← empty, stored.counted]
          exact shows_.size
        have ranked : (ranking host collection.config.metric q view).take k.toNat = [] := by
          apply List.length_eq_zero_iff.mp
          rw [scan.count, nothing, List.length_nil, Nat.min_zero]
        rw [ranked] at scan
        refine ⟨view, .ok [], collection, shows_, ?_,
          fun _ rejected => (by cases rejected), fun _ => ⟨[], rfl, scan⟩, ?_⟩
        · simp only [query, queryWith, valid, if_pos empty]
          rfl
        · simp only [query, queryWith, valid, if_pos empty]
          rfl
      · obtain ⟨all, scanned, _, isRanking⟩ := @scan_answers D _ _ host _ _ _ q k stored shows_
        have scannedToo : scanAll host world.engine.allocator { collection with index := none } q
            collection.records.entries = .ok all := by
          rw [scanAll_unindexed]
          exact scanned
        rw [← isRanking] at scan
        have brute : Collection.query host world.engine.allocator { collection with index := none }
            q k params = .ok (.ok (nearest k all), { collection with index := none }) := by
          simp only [query, queryWith, valid, if_neg empty, scannedToo]
          rfl
        by_cases searched : collection.indexType ≠ .none ∧ k.toNat < collection.recordCount
        · have positive : k ≠ 0 := by
            intro zero
            rw [zero] at valid
            cases valid
          have some_ : file.liveCount ≠ 0 := by
            have count := kept.wellFormed.sound.liveCount_eq view RecordView.vector same
            rw [kept.wellFormed.liveCount, count, shows_.size, ← stored.counted]
            exact empty
          obtain ⟨after, picked⟩ := kept.search_exhaustive host q positive some_
            (fun built done => le_max_of_le_right (every built done))
          have answered := @answer_exhaustive D _ _ host _ _ _ q _ stored shows_ _ kept.wellFormed
            metric same searched.2
          refine ⟨view, .ok (nearest k all), { collection with index := some (.ivf after) },
            shows_, ?_, fun _ rejected => (by cases rejected), fun _ => ⟨_, rfl, scan⟩, brute⟩
          simp only [query, queryWith, valid, if_neg empty, held, if_pos searched, Index.search,
            picked, bind, Except.bind, pure, Except.pure, answered, isRanking]
        · refine ⟨view, .ok (nearest k all), collection, shows_, ?_,
            fun _ rejected => (by cases rejected), fun _ => ⟨_, rfl, scan⟩, brute⟩
          simp only [query, queryWith, valid, if_neg empty, held, if_neg searched, scanned]
          rfl

/-- Five records in two cells, one of them moved and one removed again. -/
def clusteredRun : List Command :=
  [.createCollection [99] 1 0, .insert [99] [1] [0] none, .insert [99] [2] [2] none,
    .insert [99] [3] [7] none, .insert [99] [4] [44] none,
    .buildIndex [99] .ivf { nlist := 2, seed := 0 }, .insert [99] [5] [21] none,
    .insert [99] [3] [40] none, .remove [99] [5]]

theorem query_exhaustive_of_clusters :
    ∃ (statuses : List Status) (world : World) (collection : Collection) (file : IvfIndex)
      (view : OrderedMap RecordId RecordView) (results : List (Neighbor (WithTop Nat)))
      (after : Collection),
      (new 4096 (fun _ => 0)).run ExactLine.meansHost clusteredRun = .ok (statuses, world) ∧
        world.engine.collections.find? [99] = some collection ∧
        collection.index = some (.ivf file) ∧ collection.recordCount = 4 ∧
        collection.Shows world.engine.allocator view ∧
        collection.query ExactLine.meansHost world.engine.allocator [21] 2 { nprobe := 2 } =
          .ok (.ok results, after) ∧
        ScanOf ExactLine.meansHost collection.config.metric view [21] 2 results ∧
        Collection.query ExactLine.meansHost world.engine.allocator
          { collection with index := none } [21] 2 { nprobe := 2 } =
            .ok (.ok results, { collection with index := none }) := by
  have reaches : ∃ statuses world collection,
      (new 4096 (fun _ => 0)).run ExactLine.meansHost clusteredRun = .ok (statuses, world) ∧
      world.engine.collections.find? [99] = some collection ∧
      (collection.index.bind Index.file?).any (fun file => decide (collection.recordCount = 4) &&
        (rejectQuery collection.config [21] 2).isNone &&
        (file.ensurePartitionsBuilt ExactLine.meansHost).toOption.any
          (fun built => decide (built.centroids.length = 2))) = true :=
    exists_of_reached (by decide +kernel)
  rcases reaches with ⟨statuses, world, collection, done, found, told⟩
  rcases (Option.any_eq_true _ _).mp told with ⟨file, isFile, told⟩
  rcases Option.bind_eq_some_iff.mp isFile with ⟨index, held, isIndex⟩
  rw [Index.file_eq_some isIndex] at held
  rw [Bool.and_eq_true, Bool.and_eq_true, decide_eq_true_eq] at told
  rcases ok_of_any told.2 with ⟨partitioned, isBuilt, cells⟩
  have every : ∀ built, file.ensurePartitionsBuilt ExactLine.meansHost = .ok built →
      built.centroids.length ≤ (2 : UInt32).toNat := by
    intro built same
    rw [isBuilt] at same
    cases same
    exact (of_decide_eq_true cells).le
  rcases query_exhaustive done found held [21] 2 { nprobe := 2 } every with
    ⟨view, answer, after, shows_, answered, _, valid, scanned⟩
  rcases valid (Option.isNone_iff_eq_none.mp told.1.2) with ⟨results, isOk, scan⟩
  rw [isOk] at answered scanned
  exact ⟨statuses, world, collection, file, view, results, after, done, found, held, told.1.1,
    shows_, answered, scan, scanned⟩

end World

end VectorVault
