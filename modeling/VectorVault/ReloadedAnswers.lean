import VectorVault.CollectionQuery
import VectorVault.HnswSameAnswers
import VectorVault.IndexedHistories
import VectorVault.SavedRuns

/-! Query answers before a save and after the load.

A scan answers as before. A graph without tombstones whose entry point is the
elected one answers as before, too; removed nodes, or another entry point, may
change what is found. -/

namespace VectorVault

open FloatOrder Snapshot Collection PersistenceManager

namespace Collection

variable {D : Type} [LinearOrder D] [OrderTop D] {host : Host D} {allocator other : MemoryAllocator}
  {collection loaded : Collection} {view : OrderedMap RecordId RecordView} {q : List F32}

section SameView

variable (shows_ : collection.Shows allocator view) (shown : loaded.Shows other view)
  (config : loaded.config = collection.config)

include shows_ shown config

theorem exactDistance_same {id : RecordId} {slot loadedSlot : RecordSlot}
    (found : collection.records.find? id = some slot)
    (foundLoaded : loaded.records.find? id = some loadedSlot) :
    exactDistance host other loaded q loadedSlot = exactDistance host allocator collection q slot := by
  rcases @exactDistance_eq _ _ _ host _ _ _ q shows_ _ _ found with ⟨record, known, distance⟩
  rcases @exactDistance_eq _ _ _ host _ _ _ q shown _ _ foundLoaded with
    ⟨again, knownAgain, distanceAgain⟩
  rw [known, Option.some.injEq] at knownAgain
  rw [distance, distanceAgain, knownAgain, config]

theorem rerank_same (candidates : List (Candidate D)) (seen : List RecordId) :
    rerank host other loaded q candidates seen = rerank host allocator collection q candidates seen := by
  induction candidates generalizing seen with
  | nil => rfl
  | cons candidate rest ih =>
      cases found : collection.records.find? candidate.id with
      | none =>
          have missing := (shown.find_iff candidate.id).mp (shows_.absent found)
          simp only [rerank, found, missing, ih]
      | some slot =>
          have present : loaded.records.find? candidate.id ≠ none := by
            intro missing
            have absent := (shows_.find_iff candidate.id).mp (shown.absent missing)
            rw [found] at absent
            cases absent
          rcases Option.ne_none_iff_exists'.mp present with ⟨loadedSlot, foundLoaded⟩
          simp only [rerank, found, foundLoaded, ih,
            exactDistance_same shows_ shown config found foundLoaded]

theorem answer_same (counts : loaded.recordCount = collection.recordCount) (k : UInt32)
    (candidates : List (Candidate D)) :
    answer host other loaded q k candidates = answer host allocator collection q k candidates := by
  rcases @scanAll_ranked _ _ _ host _ _ _ q k shows_ with ⟨all, scanned, _, _, ranked⟩
  rcases @scanAll_ranked _ _ _ host _ _ _ q k shown with
    ⟨allLoaded, scannedLoaded, _, _, rankedLoaded⟩
  have lists : nearest k allLoaded = nearest k all := by
    calc
      _ = (ranking host loaded.config.metric q view).take k.toNat := rankedLoaded
      _ = (ranking host collection.config.metric q view).take k.toNat := by rw [config]
      _ = nearest k all := ranked.symm
  have reranked := @rerank_same _ _ _ host _ _ _ _ _ q shows_ shown config candidates []
  simp only [answer, reranked, counts, scanned, scannedLoaded, bind, Except.bind, lists]

end SameView

section Restored

variable {graph : HnswIndex}

/-- No two stored vectors are equally far from the query. -/
def Distinguished (host : Host D) (allocator : MemoryAllocator) (collection : Collection)
    (q : List F32) : Prop :=
  ∀ first second (a b : RecordView), collection.get allocator first = .ok (.ok a) →
    collection.get allocator second = .ok (.ok b) →
      host.distanceOr collection.config.metric q a.vector =
        host.distanceOr collection.config.metric q b.vector → first = second

def stored? (allocator : MemoryAllocator) (collection : Collection) (id : RecordId) :
    Option RecordView :=
  match collection.get allocator id with
  | .ok (.ok record) => some record
  | _ => none

theorem stored_eq_some {id : RecordId} {record : RecordView} :
    collection.stored? allocator id = some record ↔
      collection.get allocator id = .ok (.ok record) := by
  unfold stored?
  split
  · next known answered => rw [answered, Option.some.injEq, Except.ok.injEq, Except.ok.injEq]
  · next missing =>
      constructor
      · intro same
        cases same
      · exact fun answered => absurd answered (missing record)

theorem stored_mem {id : RecordId} {record : RecordView}
    (answered : collection.get allocator id = .ok (.ok record)) : id ∈ collection.records.keys := by
  apply (OrderedMap.mem_keys_iff _ _).mpr
  cases found : collection.records.find? id with
  | none =>
      simp only [get, found] at answered
      cases answered
  | some slot => exact ⟨slot, rfl⟩

instance : Decidable (collection.Distinguished host allocator q) :=
  decidable_of_iff (∀ first ∈ collection.records.keys, ∀ second ∈ collection.records.keys,
      ∀ a ∈ collection.stored? allocator first, ∀ b ∈ collection.stored? allocator second,
        host.distanceOr collection.config.metric q a.vector =
          host.distanceOr collection.config.metric q b.vector → first = second) <| by
    constructor
    · intro checked first second a b answered answeredToo
      exact checked first (stored_mem answered) second (stored_mem answeredToo) a
        (stored_eq_some.mpr answered) b (stored_eq_some.mpr answeredToo)
    · intro distinguished first _ second _ a known b knownToo
      exact distinguished first second a b (stored_eq_some.mp known) (stored_eq_some.mp knownToo)

theorem Indexed.node_stored (indexed : collection.Indexed view)
    (held : collection.index = some (.hnsw graph)) {node : HnswNode} {number : Nat}
    (found : graph.nodes[number]? = some node) (alive : node.deleted = false) :
    ∃ record, view.find? node.id = some record ∧ record.vector = node.vector := by
  have sound := (indexed.sound _ held).roster
  have known : (Index.hnsw graph).roster.vectorOf node.id = some node.vector := by
    apply (sound.vectorOf_iff node.id node.vector).mpr
    exact ⟨HnswIndex.entryOf node, List.mem_of_getElem? (HnswIndex.roster_get found), rfl, alive,
      rfl⟩
  rw [indexed.mirrors _ held node.id] at known
  exact Option.map_eq_some_iff.mp known

theorem Indexed.supplied (indexed : collection.Indexed view)
    (held : collection.index = some (.hnsw graph)) (clean : graph.Untombstoned)
    {lookup : RecordId → Option (List F32)}
    (lookups : ∀ id, lookup id = (view.find? id).map RecordView.vector) : graph.Supplied lookup := by
  intro node member
  rcases List.getElem?_of_mem member with ⟨number, found⟩
  rcases indexed.node_stored held found (clean node member) with ⟨record, known, vector⟩
  rw [lookups, known, Option.map_some, vector]

theorem Indexed.apart (indexed : collection.Indexed view)
    (shows_ : collection.Shows allocator view) (held : collection.index = some (.hnsw graph))
    (clean : graph.Untombstoned) (distinguished : collection.Distinguished host allocator q) :
    BestFirst.Apart (graph.score host q) (fun node => node < graph.nodes.length) := by
  have wellFormed : graph.WellFormed := (indexed.sound _ held).wellFormed
  have metric : graph.metric = collection.config.metric := (indexed.sound _ held).metric
  intro first second validFirst validSecond same
  have foundFirst := List.getElem?_eq_getElem validFirst
  have foundSecond := List.getElem?_eq_getElem validSecond
  rcases indexed.node_stored held foundFirst (clean _ (List.mem_of_getElem? foundFirst)) with
    ⟨a, knownA, vectorA⟩
  rcases indexed.node_stored held foundSecond (clean _ (List.mem_of_getElem? foundSecond)) with
    ⟨b, knownB, vectorB⟩
  simp only [HnswIndex.score, foundFirst, foundSecond, metric] at same
  have sameId : graph.nodes[first].id = graph.nodes[second].id := by
    apply distinguished _ _ a b
    · rw [shows_ _, knownA]
    · rw [shows_ _, knownB]
    · rw [vectorA, vectorB, same]
  exact wellFormed.ids first second _ _ foundFirst foundSecond sameId

theorem Indexed.search_reloaded (indexed : collection.Indexed view)
    (shows_ : collection.Shows allocator view) (held : collection.index = some (.hnsw graph))
    (numbered : collection.Numbered) (clean : graph.Untombstoned) (elected : graph.Elected)
    (distinguished : collection.Distinguished host allocator q)
    {lookup : RecordId → Option (List F32)}
    (lookups : ∀ id, lookup id = (view.find? id).map RecordView.vector) (k : UInt32)
    (params : QueryParams) :
    ∃ candidates, graph.search host q k params = .ok candidates ∧
      (graph.reloaded collection.config.dimensionality collection.config.metric lookup).search host
        q k params = .ok candidates := by
  have wellFormed : graph.WellFormed := (indexed.sound _ held).wellFormed
  have metric : graph.metric = collection.config.metric := (indexed.sound _ held).metric
  have apart := indexed.apart shows_ held clean distinguished
  have supplied := indexed.supplied held clean lookups
  rw [← metric]
  exact HnswIndex.search_reloaded wellFormed (numbered graph held) clean
    collection.config.dimensionality supplied apart elected k params

theorem query_restored (shows_ : collection.Shows allocator view)
    (counted : collection.recordCount = collection.records.size)
    (same : SameCollection other view collection loaded)
    (held : collection.index = some (.hnsw graph)) (k : UInt32) (params : QueryParams)
    (finds : k.toNat < collection.recordCount → ∀ lookup : RecordId → Option (List F32),
      (∀ id, lookup id = (view.find? id).map RecordView.vector) →
        ∃ candidates, graph.search host q k params = .ok candidates ∧
          (graph.reloaded collection.config.dimensionality collection.config.metric lookup).search
            host q k params = .ok candidates) :
    (loaded.query host other q k params).map Prod.fst =
      (collection.query host allocator q k params).map Prod.fst := by
  have counts : loaded.recordCount = collection.recordCount := by
    calc
      _ = view.size := same.count
      _ = collection.records.size := shows_.size
      _ = collection.recordCount := counted.symm
  have restored := same.index
  rw [held] at restored
  generalize isIndex : loaded.index = after at restored
  cases restored with
  | @hnsw _ lookup lookups =>
      cases rejected : rejectQuery collection.config q k with
      | some error =>
          simp only [query, queryWith, same.config, rejected]
          rfl
      | none =>
          by_cases empty : collection.recordCount = 0
          · simp only [query, queryWith, same.config, rejected, counts, if_pos empty]
            rfl
          · by_cases searched : collection.indexType ≠ .none ∧ k.toNat < collection.recordCount
            · rcases finds searched.2 lookup lookups with ⟨candidates, found, foundAgain⟩
              have answers := @answer_same _ _ _ host _ _ _ _ _ q shows_ same.shows same.config
                counts k candidates
              simp only [query, queryWith, same.config, same.type, rejected, counts, if_neg empty,
                held, isIndex, if_pos searched, Index.search, found, foundAgain, bind, Except.bind,
                pure, Except.pure, answers]
              cases answer host allocator collection q k candidates with
              | error fault => rfl
              | ok results => rfl
            · rcases @scanAll_ranked _ _ _ host _ _ _ q k shows_ with
                ⟨all, scanned, _, _, ranked⟩
              rcases @scanAll_ranked _ _ _ host _ _ _ q k same.shows with
                ⟨allLoaded, scannedLoaded, _, _, rankedLoaded⟩
              rw [same.config] at rankedLoaded
              simp only [query, queryWith, same.config, same.type, rejected, counts, if_neg empty,
                held, isIndex, if_neg searched, scanned, scannedLoaded, bind, Except.bind]
              rw [← ranked] at rankedLoaded
              exact congrArg (fun results => Except.ok (Except.ok results)) rankedLoaded

end Restored

end Collection

namespace World

variable {D : Type} [LinearOrder D] [OrderTop D] {host : Host D} {world : World} {name : Bytes}
  {collection : Collection} {graph : HnswIndex}

/-- A query that scans every record, or goes through a graph without tombstones
from its elected entry point, is answered after a reload as before the save. -/
theorem History.query_reloaded (history : History host Storable world)
    (found : world.engine.collections.find? name = some collection)
    (held : collection.index = some (.hnsw graph)) :
    ∃ content : FileContent, image world.engine.allocator collection = .ok content.bytes ∧
      ∀ path other tag, ∃ loaded, load path other (.regular content) tag = .ok (.ok loaded) ∧
        ∀ (q : List F32) (k : UInt32) (params : QueryParams),
          (collection.recordCount ≤ k.toNat ∨ graph.Untombstoned ∧ graph.Elected ∧
            collection.Distinguished host world.engine.allocator q) →
          (loaded.query host other q k params).map Prod.fst =
            (collection.query host world.engine.allocator q k params).map Prod.fst := by
  rcases history.indexed with ⟨owned, configured, each, _⟩
  rcases each name collection found with ⟨view, shows_, indexed⟩
  have stored := owned.stored name collection found
  have valid := (configured name collection found).1
  have storable := history.within name collection found
  have tracked : collection.Tracked True view := indexed.tracked
  have encodable := captured_encodable valid stored.named shows_ tracked storable.2.1
  have isImage := (image_captured shows_).trans (encode_written encodable)
  have small := storable.2.2 _ isImage
  obtain ⟨content, isContent⟩ : ∃ content : FileContent, content.bytes =
      fileOf (writtenHeader (collection.captured view)) (bodyOf (collection.captured view)) :=
    ⟨⟨_, small.trans (by decide)⟩, rfl⟩
  rw [← isContent] at isImage
  refine ⟨content, isImage, ?_⟩
  intro path other tag
  rcases load_storable valid stored.named shows_ indexed storable isImage path other tag with
    ⟨loaded, read, same, _⟩
  refine ⟨loaded, read, ?_⟩
  intro q k params condition
  apply query_restored shows_ stored.counted same held
  intro fewer lookup lookups
  rcases condition with all | ⟨clean, elected, distinguished⟩
  · omega
  · exact indexed.search_reloaded shows_ held storable.1 clean elected distinguished lookups k params

def electedRun : List Command :=
  [.createCollection [99] 1 0, .buildIndex [99] .hnsw { m := 2, efConstruction := 2 },
    .insert [99] [1] [0] none, .insert [99] [2] [5] none]

theorem query_reloaded_of_elected :
    ∃ (world : World) (collection loaded : Collection) (graph : HnswIndex) (content : FileContent),
      History (ExactLine.host []) Storable world ∧
        world.engine.collections.find? [99] = some collection ∧
        collection.index = some (.hnsw graph) ∧ (1 : UInt32).toNat < collection.recordCount ∧
        image world.engine.allocator collection = .ok content.bytes ∧
        load [] (MemoryAllocator.new 64 (fun _ => 0)) (.regular content) 1 = .ok (.ok loaded) ∧
        (loaded.query (ExactLine.host []) (MemoryAllocator.new 64 (fun _ => 0)) [4] 1 {}).map
            Prod.fst =
          (collection.query (ExactLine.host []) world.engine.allocator [4] 1 {}).map Prod.fst := by
  have reaches : ∃ world collection, History (ExactLine.host []) Storable world ∧
      world.engine.collections.find? [99] = some collection ∧
      (collection.index.bind Index.graph?).any (fun graph =>
        decide ((1 : UInt32).toNat < collection.recordCount ∧ graph.Untombstoned ∧ graph.Elected ∧
          collection.Distinguished (ExactLine.host []) world.engine.allocator [4])) = true :=
    exists_of_followed (show ((new 4096 (fun _ => 0)).follow (ExactLine.host []) Storable
      electedRun).any (fun world => (world.engine.collections.find? [99]).any (fun collection =>
        (collection.index.bind Index.graph?).any (fun graph =>
          decide ((1 : UInt32).toNat < collection.recordCount ∧ graph.Untombstoned ∧ graph.Elected ∧
            collection.Distinguished (ExactLine.host []) world.engine.allocator [4])))) = true by
      decide +kernel)
  rcases reaches with ⟨world, collection, history, found, told⟩
  rcases (Option.any_eq_true _ _).mp told with ⟨graph, isGraph, told⟩
  rcases Option.bind_eq_some_iff.mp isGraph with ⟨index, held, isIndex⟩
  rw [Index.graph_eq_some isIndex] at held
  have facts := of_decide_eq_true told
  rcases history.query_reloaded found held with ⟨content, isImage, loads⟩
  rcases loads [] (MemoryAllocator.new 64 (fun _ => 0)) 1 with ⟨loaded, read, answers⟩
  exact ⟨world, collection, loaded, graph, content, history, found, held, facts.1, isImage, read,
    answers [4] 1 {} (Or.inr facts.2)⟩

def distancesAmong (host : Host D) (metric : DistanceMetric) : List (List F32) → List D
  | [] => []
  | vec :: rest => rest.map (host.distanceOr metric vec) ++ distancesAmong host metric rest

/-- A collection of the run is saved, loaded, and answers the query otherwise,
though no two distances are equal. -/
structure Strays (commands : List Command) (q : List F32) (allocator : MemoryAllocator)
    (collection loaded : Collection) : Prop where
  reached : ∃ statuses world, (new 4096 (fun _ => 0)).run (ExactLine.host []) commands =
    .ok (statuses, world) ∧ world.engine.allocator = allocator ∧
      world.engine.collections.find? [99] = some collection ∧ collection.indexType = .hnsw
  loads : ∃ content : FileContent, image allocator collection = .ok content.bytes ∧
    load [] (MemoryAllocator.new 64 (fun _ => 0)) (.regular content) 1 = .ok (.ok loaded)
  apart : ∃ vectors, collection.records.entries.mapM
      (fun entry => collection.components allocator entry.2) = .ok vectors ∧
    (distancesAmong (ExactLine.host []) collection.config.metric (q :: vectors)).Nodup
  differs : ∃ before after,
    (collection.query (ExactLine.host []) allocator q 1 { efSearch := 1 }).map Prod.fst =
      .ok (.ok before) ∧
    (loaded.query (ExactLine.host []) (MemoryAllocator.new 64 (fun _ => 0)) q 1
      { efSearch := 1 }).map Prod.fst = .ok (.ok after) ∧ before ≠ after

def reloadedAfter (commands : List Command) : Option (MemoryAllocator × Collection × Collection) :=
  match (new 4096 (fun _ => 0)).run (ExactLine.host []) commands with
  | .error _ => none
  | .ok (_, world) =>
      match world.engine.collections.find? [99] with
      | none => none
      | some collection =>
          match image world.engine.allocator collection with
          | .error _ => none
          | .ok bytes =>
              if sized : bytes.length < 2 ^ 63 then
                match load [] (MemoryAllocator.new 64 (fun _ => 0)) (.regular ⟨bytes, sized⟩) 1 with
                | .ok (.ok loaded) =>
                    if collection.indexType = .hnsw
                    then some (world.engine.allocator, collection, loaded) else none
                | _ => none
              else none

def straying (q : List F32) (allocator : MemoryAllocator) (collection loaded : Collection) : Bool :=
  match collection.records.entries.mapM
      (fun entry => collection.components allocator entry.2) with
  | .ok vectors =>
      match (collection.query (ExactLine.host []) allocator q 1 { efSearch := 1 }).map Prod.fst,
        (loaded.query (ExactLine.host []) (MemoryAllocator.new 64 (fun _ => 0)) q 1
          { efSearch := 1 }).map Prod.fst with
      | .ok (.ok before), .ok (.ok after) =>
          decide (before ≠ after ∧ (distancesAmong (ExactLine.host []) collection.config.metric
            (q :: vectors)).Nodup)
      | _, _ => false
  | .error _ => false

theorem reloadedAfter_some {commands : List Command} {allocator : MemoryAllocator}
    {collection loaded : Collection}
    (isReload : reloadedAfter commands = some (allocator, collection, loaded)) :
    (∃ statuses world, (new 4096 (fun _ => 0)).run (ExactLine.host []) commands =
      .ok (statuses, world) ∧ world.engine.allocator = allocator ∧
        world.engine.collections.find? [99] = some collection ∧ collection.indexType = .hnsw) ∧
      ∃ content : FileContent, image allocator collection = .ok content.bytes ∧
        load [] (MemoryAllocator.new 64 (fun _ => 0)) (.regular content) 1 = .ok (.ok loaded) := by
  unfold reloadedAfter at isReload
  split at isReload
  · cases isReload
  · next statuses world done =>
      split at isReload
      · cases isReload
      · next held found =>
          split at isReload
          · cases isReload
          · next bytes isImage =>
              split at isReload
              · next sized =>
                  split at isReload
                  · next read =>
                      split at isReload
                      · next type =>
                          cases isReload
                          exact ⟨⟨statuses, world, done, rfl, found, type⟩, ⟨bytes, sized⟩,
                            isImage, read⟩
                      · cases isReload
                  · cases isReload
              · cases isReload

theorem strays_of_straying (commands : List Command) (q : List F32)
    (told : ((reloadedAfter commands).any
      (fun reload => straying q reload.1 reload.2.1 reload.2.2)) = true) :
    ∃ allocator collection loaded, Strays commands q allocator collection loaded := by
  rcases (Option.any_eq_true _ _).mp told with ⟨⟨allocator, collection, loaded⟩, isReload, told⟩
  have facts := reloadedAfter_some isReload
  unfold straying at told
  split at told
  · next vectors read =>
      split at told
      · next before after answered answeredAfter =>
          have results := of_decide_eq_true told
          exact ⟨allocator, collection, loaded, facts.1, facts.2, ⟨vectors, read, results.2⟩,
            before, after, answered, answeredAfter, results.1⟩
      · cases told
  · cases told

/-- Nothing is removed, but the region names another entry point; or a removed
record was the way to the nearest one. -/
theorem reload_changes_answers :
    (∃ allocator collection loaded, Strays
      [.createCollection [99] 1 0, .buildIndex [99] .hnsw { m := 2, efConstruction := 1 },
        .insert [99] [3] [ExactLine.whole 0] none, .insert [99] [1] [ExactLine.whole 100] none,
        .insert [99] [2] [ExactLine.whole 40] none]
      [ExactLine.whole 69] allocator collection loaded) ∧
    ∃ allocator collection loaded, Strays
      [.createCollection [99] 1 0, .buildIndex [99] .hnsw { m := 2, efConstruction := 1 },
        .insert [99] [1] [ExactLine.whole 0] none, .insert [99] [2] [ExactLine.whole 20] none,
        .insert [99] [3] [ExactLine.whole 45] none, .remove [99] [2]]
      [ExactLine.whole 46] allocator collection loaded :=
  ⟨strays_of_straying _ _ (by decide +kernel), strays_of_straying _ _ (by decide +kernel)⟩

end World

end VectorVault
