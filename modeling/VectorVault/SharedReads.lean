import VectorVault.EngineMemory
import VectorVault.IvfHistories

/-! What runs under the reader lock, and what it writes.

Several of these operations may run at once on one collection. All but a query
leave the state they find; a query writes through the index exactly when it
reaches an inverted-file index whose partitioning is stale. -/

namespace VectorVault

open FloatOrder

structure CollectionInfo where
  name : Bytes
  dimensionality : UInt32
  metric : DistanceMetric
  recordCount : Nat
  deriving DecidableEq

def Collection.info (collection : Collection) : CollectionInfo :=
  ⟨collection.config.name, collection.config.dimensionality, collection.config.metric,
    collection.recordCount⟩

inductive SharedRead where
  | get (id : RecordId)
  | count
  | info
  | indexType
  | snapshotData
  | query (q : List F32) (k : UInt32) (params : QueryParams)

inductive ReadResult (D : Type) where
  | record (answer : Result RecordView)
  | count (records : Nat)
  | info (entry : CollectionInfo)
  | indexType (type : IndexType)
  | snapshot (data : CollectionSnapshotData)
  | neighbors (answer : Result (List (Neighbor D)))

namespace SharedRead

section Perform

variable {D : Type} [FloatOrder D] (host : Host D) (allocator : MemoryAllocator)

def perform (collection : Collection) (read : SharedRead) : Run (ReadResult D × Collection) :=
  match read with
  | .get id => do
      let answer ← collection.get allocator id
      return (.record answer, collection)
  | .count => return (.count collection.count, collection)
  | .info => return (.info collection.info, collection)
  | .indexType => return (.indexType collection.indexType, collection)
  | .snapshotData => do
      let data ← collection.snapshotData allocator
      return (.snapshot data, collection)
  | .query q k params => do
      let (answer, after) ← collection.query host allocator q k params
      return (.neighbors answer, after)

def performAll : Collection → List SharedRead → Run (List (ReadResult D) × Collection)
  | collection, [] => return ([], collection)
  | collection, read :: rest => do
      let (result, after) ← perform host allocator collection read
      let (results, final) ← performAll after rest
      return (result :: results, final)

end Perform

/-- The query goes to the index, which is an inverted-file one with live records
and a stale partitioning. -/
def Refreshes (collection : Collection) (read : SharedRead) : Prop :=
  match read with
  | .query q k _ =>
      Collection.rejectQuery collection.config q k = none ∧ collection.indexType ≠ .none ∧
        k.toNat < collection.recordCount ∧
        ∃ index : IvfIndex, collection.index = some (.ivf index) ∧ index.dirty = true ∧
          index.liveCount ≠ 0
  | _ => False

variable {D : Type} [FloatOrder D] {host : Host D} {allocator : MemoryAllocator}
  {collection after : Collection} {read : SharedRead}

theorem search_ivf_clean {index after : IvfIndex} {q : List F32} {k : UInt32}
    {params : QueryParams} {candidates : List (Candidate D)}
    (searched : index.search host q k params = .ok (candidates, after))
    (idle : index.dirty = false ∨ k = 0 ∨ index.liveCount = 0) : after = index := by
  rcases idle with clean | idle
  · rcases IvfIndex.search_built host searched with same | built
    · exact same
    · rw [IvfIndex.ensurePartitionsBuilt, if_pos clean] at built
      exact (Except.ok.inj built).symm
  · rw [IvfIndex.search, if_pos idle] at searched
    cases searched
    rfl

theorem search_ivf_stale {index after : IvfIndex} {q : List F32} {k : UInt32}
    {params : QueryParams} {candidates : List (Candidate D)}
    (searched : index.search host q k params = .ok (candidates, after))
    (busy : ¬ (k = 0 ∨ index.liveCount = 0)) : after.dirty = false := by
  rw [IvfIndex.search, if_neg busy] at searched
  obtain ⟨built, done, searched⟩ := bind_ok searched
  have clean := (IvfIndex.ensurePartitionsBuilt_ok host done).1
  split at searched
  · cases searched
    exact clean
  · obtain ⟨_, _, result⟩ := bind_ok searched
    cases result
    exact clean

theorem search_ivf_cases {index after : IvfIndex} {q : List F32} {k : UInt32}
    {params : QueryParams} {candidates : List (Candidate D)} (wanted : k ≠ 0)
    (searched : index.search host q k params = .ok (candidates, after)) :
    (index.dirty = true ∧ index.liveCount ≠ 0) ∧ after.dirty = false ∨
      ¬ (index.dirty = true ∧ index.liveCount ≠ 0) ∧ after = index := by
  by_cases stale : index.dirty = true ∧ index.liveCount ≠ 0
  · refine Or.inl ⟨stale, search_ivf_stale searched ?_⟩
    intro idle
    exact idle.elim wanted stale.2
  · refine Or.inr ⟨stale, search_ivf_clean searched ?_⟩
    by_cases clean : index.dirty = true
    · right
      right
      by_contra some_
      exact stale ⟨clean, some_⟩
    · exact Or.inl (Bool.eq_false_of_not_eq_true clean)

/-- The query goes to an index of the collection. -/
def Consults (collection : Collection) (q : List F32) (k : UInt32) (index : Index) : Prop :=
  Collection.rejectQuery collection.config q k = none ∧ collection.indexType ≠ .none ∧
    k.toNat < collection.recordCount ∧ collection.index = some index

theorem query_cases {q : List F32} {k : UInt32} {params : QueryParams}
    {answer : Result (List (Neighbor D))}
    (done : collection.query host allocator q k params = .ok (answer, after)) :
    (after = collection ∧ ∀ index, ¬ Consults collection q k index) ∨
      ∃ index candidates final, Consults collection q k index ∧
        index.search host q k params = .ok (candidates, final) ∧
        after = { collection with index := some final } := by
  unfold Collection.query Collection.queryWith at done
  split at done
  · next rejected =>
      cases done
      refine Or.inl ⟨rfl, ?_⟩
      intro index consults
      have accepted := consults.1
      rw [rejected] at accepted
      cases accepted
  · next valid =>
      split at done
      · next empty =>
          cases done
          refine Or.inl ⟨rfl, ?_⟩
          intro index consults
          have less := consults.2.2.1
          omega
      · cases held : collection.index with
        | none =>
            simp only [held] at done
            obtain ⟨_, _, result⟩ := bind_ok done
            cases result
            refine Or.inl ⟨rfl, ?_⟩
            intro index consults
            have there := consults.2.2.2
            rw [held] at there
            cases there
        | some index =>
            simp only [held] at done
            split at done
            · next used =>
                obtain ⟨⟨candidates, final⟩, searched, rest⟩ := bind_ok done
                obtain ⟨_, _, result⟩ := bind_ok rest
                cases result
                exact Or.inr ⟨index, candidates, final, ⟨valid, used.1, used.2, held⟩, searched,
                  rfl⟩
            · next unused =>
                obtain ⟨_, _, result⟩ := bind_ok done
                cases result
                refine Or.inl ⟨rfl, ?_⟩
                intro index consults
                exact unused ⟨consults.2.1, consults.2.2.1⟩

theorem perform_cases {result : ReadResult D}
    (done : perform host allocator collection read = .ok (result, after)) :
    (¬ Refreshes collection read ∧ after = collection) ∨
      Refreshes collection read ∧ ∃ index : IvfIndex, index.dirty = false ∧
        after = { collection with index := some (.ivf index) } := by
  cases read with
  | get id =>
      obtain ⟨_, _, result⟩ := bind_ok done
      cases result
      exact Or.inl ⟨fun refreshes => refreshes, rfl⟩
  | count =>
      cases done
      exact Or.inl ⟨fun refreshes => refreshes, rfl⟩
  | info =>
      cases done
      exact Or.inl ⟨fun refreshes => refreshes, rfl⟩
  | indexType =>
      cases done
      exact Or.inl ⟨fun refreshes => refreshes, rfl⟩
  | snapshotData =>
      obtain ⟨_, _, result⟩ := bind_ok done
      cases result
      exact Or.inl ⟨fun refreshes => refreshes, rfl⟩
  | query q k params =>
      obtain ⟨⟨answer, final⟩, queried, result⟩ := bind_ok done
      cases result
      rcases query_cases queried with ⟨same, idle⟩ | ⟨index, candidates, final, used, searched, shape⟩
      · refine Or.inl ⟨?_, same⟩
        intro refreshes
        obtain ⟨valid, typed, less, index, held, _⟩ := refreshes
        exact idle (.ivf index) ⟨valid, typed, less, held⟩
      · obtain ⟨valid, typed, less, held⟩ := used
        have unchanged : ∀ {index' : Index}, index' = index →
            { collection with index := some index' } = collection := by
          intro index' same
          rw [same, ← held]
        cases index with
        | hnsw index =>
            obtain ⟨_, _, result⟩ := bind_ok searched
            cases result
            refine Or.inl ⟨?_, shape.trans (unchanged rfl)⟩
            intro refreshes
            obtain ⟨_, _, _, other, isOther, _⟩ := refreshes
            rw [held] at isOther
            cases isOther
        | ivf index =>
            obtain ⟨⟨found, refreshed⟩, inner, result⟩ := bind_ok searched
            cases result
            have wanted : k ≠ 0 := by
              intro zero
              rw [Collection.rejectQuery, zero, if_pos (by decide)] at valid
              cases valid
            rcases search_ivf_cases wanted inner with ⟨stale, clean⟩ | ⟨settled, same⟩
            · exact Or.inr ⟨⟨valid, typed, less, index, held, stale⟩, refreshed, clean, shape⟩
            · left
              constructor
              · intro refreshes
                rcases refreshes with ⟨_, _, _, other, isOther, isStale⟩
                rw [held] at isOther
                cases isOther
                exact settled isStale
              · rw [shape, same]
                exact unchanged rfl

theorem Refreshes.stale (refreshes : Refreshes collection read) :
    ∃ index : IvfIndex, collection.index = some (.ivf index) ∧ index.dirty = true := by
  cases read with
  | query q k params =>
      obtain ⟨_, _, _, index, held, stale, _⟩ := refreshes
      exact ⟨index, held, stale⟩
  | get => cases refreshes
  | count => cases refreshes
  | info => cases refreshes
  | indexType => cases refreshes
  | snapshotData => cases refreshes

theorem not_refreshes_of_clean {index : IvfIndex} (held : collection.index = some (.ivf index))
    (clean : index.dirty = false) (read : SharedRead) : ¬ Refreshes collection read := by
  intro refreshes
  obtain ⟨other, isOther, stale⟩ := refreshes.stale
  rw [held] at isOther
  cases isOther
  rw [clean] at stale
  cases stale

theorem performAll_clean {reads : List SharedRead} {results : List (ReadResult D)}
    (quiet : ∀ read ∈ reads, ¬ Refreshes collection read)
    (done : performAll host allocator collection reads = .ok (results, after)) :
    after = collection := by
  induction reads generalizing results with
  | nil =>
      cases done
      rfl
  | cons read rest ih =>
      obtain ⟨⟨result, middle⟩, first, done⟩ := bind_ok done
      obtain ⟨⟨later, final⟩, second, result⟩ := bind_ok done
      cases result
      rcases perform_cases first with ⟨_, same⟩ | ⟨refreshes, _⟩
      · rw [same] at second
        exact ih (fun other member => quiet other (List.mem_cons_of_mem read member)) second
      · exact absurd refreshes (quiet read List.mem_cons_self)

/-- Induction over the reads: the first that refreshes clears the flag, and the
rest leave that state. -/
theorem performAll_refreshed {reads : List SharedRead} {results : List (ReadResult D)}
    (some_ : ∃ read ∈ reads, Refreshes collection read)
    (done : performAll host allocator collection reads = .ok (results, after)) :
    ∃ index : IvfIndex, after.index = some (.ivf index) ∧ index.dirty = false := by
  induction reads generalizing collection results with
  | nil =>
      obtain ⟨_, member, _⟩ := some_
      cases member
  | cons read rest ih =>
      obtain ⟨⟨result, middle⟩, first, done⟩ := bind_ok done
      obtain ⟨⟨later, final⟩, second, result⟩ := bind_ok done
      cases result
      rcases perform_cases first with ⟨quiet, same⟩ | ⟨_, index, clean, shape⟩
      · apply ih _ second
        obtain ⟨other, member, refreshes⟩ := some_
        rw [same]
        rcases List.mem_cons.mp member with here | there
        · rw [here] at refreshes
          exact absurd refreshes quiet
        · exact ⟨other, there, refreshes⟩
      · have held : middle.index = some (.ivf index) := by rw [shape]
        have kept := performAll_clean
          (fun other _ => not_refreshes_of_clean held clean other) second
        exact ⟨index, by rw [kept]; exact held, clean⟩

/-- Any reads, in any order: the state stays exactly when none refreshes it. -/
theorem performAll_unchanged_iff {reads : List SharedRead} {results : List (ReadResult D)}
    (done : performAll host allocator collection reads = .ok (results, after)) :
    after = collection ↔ ∀ read ∈ reads, ¬ Refreshes collection read := by
  constructor
  · intro same read member refreshes
    obtain ⟨index, held, clean⟩ := performAll_refreshed ⟨read, member, refreshes⟩ done
    rw [same] at held
    exact not_refreshes_of_clean held clean read refreshes
  · intro quiet
    exact performAll_clean quiet done

/-- Three records in an inverted file that is stale: the first reads refresh it, and the
next ones find it so and leave it. -/
theorem performAll_unchanged_once_refreshed :
    ∃ statuses world collection results after again,
      (World.new 512 (fun _ => 0)).run ExactLine.meansHost
        [.createCollection [97] 1 0, .insert [97] [1] [0] none, .insert [97] [2] [4] none,
          .buildIndex [97] .ivf { nlist := 2 }, .insert [97] [3] [10] none] =
            .ok (statuses, world) ∧
      world.engine.collections.find? [97] = some collection ∧
      performAll ExactLine.meansHost world.engine.allocator collection
        [.get [1], .query [5] 2 {}, .count] = .ok (results, after) ∧ after ≠ collection ∧
      performAll ExactLine.meansHost world.engine.allocator after
        [.query [0] 1 {}, .snapshotData, .get [9], .query [5] 2 {}] = .ok (again, after) := by
  have reaches : ∃ statuses world collection,
      (World.new 512 (fun _ => 0)).run ExactLine.meansHost
        [.createCollection [97] 1 0, .insert [97] [1] [0] none, .insert [97] [2] [4] none,
          .buildIndex [97] .ivf { nlist := 2 }, .insert [97] [3] [10] none] =
            .ok (statuses, world) ∧
      world.engine.collections.find? [97] = some collection ∧
      (decide (Collection.rejectQuery collection.config [5] 2 = none ∧
          collection.indexType ≠ .none ∧ (2 : UInt32).toNat < collection.recordCount) &&
        (collection.index.bind Index.file?).any
          (fun file => decide (file.dirty = true ∧ file.liveCount ≠ 0)) &&
        (performAll ExactLine.meansHost world.engine.allocator collection
          [.get [1], .query [5] 2 {}, .count]).toOption.any (fun first =>
            (first.2.index.bind Index.file?).any (fun file => decide (file.dirty = false)) &&
            (performAll ExactLine.meansHost world.engine.allocator first.2
              [.query [0] 1 {}, .snapshotData, .get [9], .query [5] 2 {}]).isOk)) = true :=
    World.exists_of_reached (by decide +kernel)
  rcases reaches with ⟨statuses, world, collection, done, found, told⟩
  rcases Bool.and_eq_true_iff.mp told with ⟨told, performed⟩
  rcases Bool.and_eq_true_iff.mp told with ⟨consults, stale⟩
  rcases of_decide_eq_true consults with ⟨valid, typed, less⟩
  rcases (Option.any_eq_true _ _).mp stale with ⟨file, isFile, busy⟩
  rcases Option.bind_eq_some_iff.mp isFile with ⟨index, held, isIndex⟩
  rw [Index.file_eq_some isIndex] at held
  rcases ok_of_any performed with ⟨⟨results, after⟩, first, told⟩
  rcases Bool.and_eq_true_iff.mp told with ⟨clean, second⟩
  rcases (Option.any_eq_true _ _).mp clean with ⟨fresh, isFresh, isClean⟩
  rcases Option.bind_eq_some_iff.mp isFresh with ⟨next, heldAfter, isNext⟩
  rw [Index.file_eq_some isNext] at heldAfter
  rcases ok_of_isOk second with ⟨⟨again, final⟩, second⟩
  have refreshes : Refreshes collection (.query [5] 2 {}) :=
    ⟨valid, typed, less, file, held, of_decide_eq_true busy⟩
  have changed : after ≠ collection := by
    intro same
    exact (performAll_unchanged_iff first).mp same (.query [5] 2 {}) (by simp) refreshes
  have same : final = after := (performAll_unchanged_iff second).mpr
    (fun read _ => not_refreshes_of_clean heldAfter (of_decide_eq_true isClean) read)
  rw [same] at second
  exact ⟨statuses, world, collection, results, after, again, done, found, first, changed, second⟩

/-- The first query after an inverted-file index is built writes to it. -/
theorem query_writes_after_build :
    ∃ statuses world collection result after,
      (World.new 256 (fun _ => 0)).run (ExactLine.host [])
        [.createCollection [97] 1 0, .insert [97] [1] [0] none, .insert [97] [2] [4] none,
          .buildIndex [97] .ivf {}] = .ok (statuses, world) ∧
      world.engine.collections.find? [97] = some collection ∧
      perform (ExactLine.host []) world.engine.allocator collection (.query [0] 1 {}) =
        .ok (result, after) ∧
      after ≠ collection := by
  have reaches : ∃ statuses world collection, (World.new 256 (fun _ => 0)).run (ExactLine.host [])
        [.createCollection [97] 1 0, .insert [97] [1] [0] none, .insert [97] [2] [4] none,
          .buildIndex [97] .ivf {}] = .ok (statuses, world) ∧
      world.engine.collections.find? [97] = some collection ∧
      (perform (ExactLine.host []) world.engine.allocator collection (.query [0] 1 {})).toOption.any
        (fun result => (collection.index.bind Index.file?).any IvfIndex.dirty &&
          !(result.2.index.bind Index.file?).any IvfIndex.dirty) = true :=
    World.exists_of_reached (by decide +kernel)
  obtain ⟨statuses, world, collection, done, found, told⟩ := reaches
  obtain ⟨⟨result, after⟩, performed, refreshed⟩ := ok_of_any told
  refine ⟨statuses, world, collection, result, after, done, found, performed, ?_⟩
  intro same
  rw [same, Bool.and_not_self] at refreshed
  cases refreshed

end SharedRead

end VectorVault
