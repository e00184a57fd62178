import VectorVault.HnswUntrusted
import VectorVault.LoadedIndex

/-! Which records the index of an accepted file has.

An inverted file is rebuilt over all of them. The nodes of a graph are resolved
among the records one by one; that every record has a node is not looked at. -/

namespace VectorVault

open Snapshot

namespace HnswIndex

section Members

variable {region : HnswRegion} {vectorFor : RecordId → Option (List F32)}
  (dimensionality : UInt32) (metric : DistanceMetric)

theorem load_roster_sound (accepted : region.Accepted vectorFor) :
    (region.load dimensionality metric vectorFor).roster.Sound := by
  intro id slot
  have directory :=
    load_directory dimensionality metric vectorFor region accepted.distinct id slot
  rw [← load_nodes dimensionality metric vectorFor region] at directory
  rw [roster, directory]
  simp only [List.getElem?_map, Option.map_eq_some_iff]
  constructor
  · intro there
    obtain ⟨node, found, named⟩ := there
    exact ⟨entryOf node, ⟨node, found, rfl⟩, named⟩
  · intro there
    obtain ⟨entry, ⟨node, found, same⟩, named⟩ := there
    exact ⟨node, found, by rw [← named, ← same]; rfl⟩

theorem load_members (accepted : region.Accepted vectorFor) (id : RecordId) :
    (∃ vec, (region.load dimensionality metric vectorFor).roster.vectorOf id = some vec) ↔
      id ∈ region.nodes.map StoredNode.id := by
  have sound := load_roster_sound dimensionality metric accepted
  have entries : (region.load dimensionality metric vectorFor).roster.entries =
      region.nodes.map (fun node => entryOf (node.load ((vectorFor node.id).getD []))) := by
    rw [roster, load_nodes, HnswRegion.nodesOf, List.map_map]
    rfl
  rw [List.mem_map]
  constructor
  · intro held
    obtain ⟨vec, held⟩ := held
    obtain ⟨entry, member, named, _⟩ := (sound.vectorOf_iff id vec).mp held
    rw [entries] at member
    obtain ⟨node, inside, same⟩ := List.mem_map.mp member
    exact ⟨node, inside, by rw [← named, ← same]; rfl⟩
  · intro there
    obtain ⟨node, inside, named⟩ := there
    refine ⟨(vectorFor node.id).getD [], (sound.vectorOf_iff id _).mpr
      ⟨entryOf (node.load ((vectorFor node.id).getD [])), ?_, named, rfl, rfl⟩⟩
    rw [entries]
    exact List.mem_map_of_mem inside

end Members

end HnswIndex

namespace PersistenceManager

open Collection

def Covers (collection : Collection) : Prop :=
  ∀ index, collection.index = some index → ∀ id,
    (∃ vec, index.roster.vectorOf id = some vec) ↔ ∃ slot, collection.records.find? id = some slot

def nodeCount (region : Bytes) : Nat := (ByteReader.new (region.drop 16)).getU32.1.toNat

variable {path : Bytes} {allocator : MemoryAllocator} {content : FileContent} {tag : Nat}
  {collection : Collection} {preamble : Preamble} {view : OrderedMap RecordId RecordView}

theorem nodeCount_put (region : HnswRegion) (count : region.nodes.length < 2 ^ 32)
    (small : region.put.length < word) : nodeCount region.put = region.nodes.length := by
  have behind : region.put.drop 16 = putU32 (UInt32.ofNat region.nodes.length) ++
      (putU32 region.maxLevel ++ (putU32 region.entry ++
        region.nodes.flatMap HnswRegion.putNode)) := by
    simp only [HnswRegion.put, List.append_assoc]
    rfl
  have left := ByteReader.left_new (region.put.drop 16) (by rw [List.length_drop]; omega)
  rw [behind] at left
  rw [nodeCount, behind, (inverse_u32.forward _ _ _ trivial left).1]
  exact UInt32.toNat_ofNat_of_lt' count

theorem covers_of_mirrors {index : Index} (shows_ : collection.Shows allocator view)
    (held : collection.index = some index) (mirrors : Mirrors index view) : Covers collection := by
  intro other isOther id
  rw [held, Option.some.injEq] at isOther
  rw [← isOther, mirrors id]
  cases found : collection.records.find? id with
  | none =>
      rw [shows_.absent found]
      simp
  | some slot =>
      obtain ⟨vec, _, known⟩ := shows_.slot found
      rw [known]
      simp

section Refused

theorem bind_error {E A B : Type} {first : Except E A} {next : A → Except E B} {reason : E}
    (failed : first >>= next = .error reason) :
    first = .error reason ∨ ∃ middle, first = .ok middle ∧ next middle = .error reason := by
  cases first with
  | error earlier =>
      cases failed
      exact Or.inl rfl
  | ok middle => exact Or.inr ⟨middle, rfl, failed⟩

theorem require_error {holds : Prop} [Decidable holds] {error reason : Error}
    (failed : require holds error = .error reason) : reason = error := by
  unfold require at failed
  split at failed
  · cases failed
  · exact (Except.error.inj failed).symm

theorem readEntry_corrupt {header : Header} {reader : ByteReader} {error : Error}
    (failed : readEntry path header reader = .error error) : error.category = .corruption := by
  rcases bind_error failed with first | ⟨_, _, failed⟩
  · rw [require_error first, corrupt]
  rcases bind_error failed with second | ⟨_, _, failed⟩
  · rw [require_error second, corrupt]
  split at failed
  · cases failed
    rfl
  · rcases bind_error failed with third | ⟨_, _, failed⟩
    · rw [require_error third, corrupt]
    rcases bind_error failed with fourth | ⟨_, _, failed⟩
    · rw [require_error fourth, corrupt]
    rcases bind_error failed with fifth | ⟨_, _, failed⟩
    · rw [require_error fifth, corrupt]
    cases failed

theorem readDirectory_corrupt {header : Header} {total remaining : Nat} {reader : ByteReader}
    {records : OrderedMap RecordId RecordSlot} {error : Error}
    (failed : readDirectory path header total remaining reader records = .ok (.error error)) :
    error.category = .corruption := by
  induction remaining generalizing reader records with
  | zero => cases failed
  | succ remaining ih =>
      rw [readDirectory] at failed
      cases entryRead : readEntry path header reader with
      | error reason =>
          rw [entryRead] at failed
          cases failed
          exact readEntry_corrupt entryRead
      | ok result =>
          rw [entryRead] at failed
          obtain ⟨_, _, failed⟩ := bind_ok failed
          split at failed
          · cases failed
            rfl
          · exact ih failed

theorem rebuildIvf_corrupt (entries : List (RecordId × RecordSlot)) {index : IvfIndex}
    {error : Error}
    (failed : rebuildIvf path allocator collection entries index = .ok (.error error)) :
    error.category = .corruption := by
  induction entries generalizing index with
  | nil => cases failed
  | cons entry rest ih =>
      obtain ⟨_, _, failed⟩ := bind_ok failed
      obtain ⟨⟨added, next⟩, _, failed⟩ := bind_ok failed
      cases added with
      | error reason =>
          cases failed
          rfl
      | ok done => exact ih failed

theorem readIndex_corrupt {region : Bytes} {type : IndexType} {error : Error}
    (failed : readIndex path allocator collection region type = .ok (.error error)) :
    error.category = .corruption := by
  cases type with
  | none => cases failed
  | hnsw =>
      rw [readIndex] at failed
      split at failed
      · cases failed
        rfl
      · cases failed
  | ivf =>
      rw [readIndex] at failed
      split at failed
      · next unread =>
          cases failed
          rcases bind_error unread with first | ⟨_, _, later⟩
          · rw [require_error first, corrupt]
          · cases later
      · obtain ⟨rebuilt, result, failed⟩ := bind_ok failed
        cases rebuilt with
        | error reason =>
            cases failed
            exact rebuildIvf_corrupt _ result
        | ok index => cases failed

theorem load_corrupt {file : SnapshotFile} {error : Error}
    (parsed : readPreamble path file = .ok preamble)
    (failed : load path allocator file tag = .ok (.error error)) :
    error.category = .corruption := by
  rw [load, parsed] at failed
  obtain ⟨directory, read, failed⟩ := bind_ok failed
  cases directory with
  | error reason =>
      cases failed
      exact readDirectory_corrupt read
  | ok result =>
      simp only at failed
      split at failed
      · cases failed
        rfl
      · obtain ⟨index, indexed, failed⟩ := bind_ok failed
        cases index with
        | error reason =>
            cases failed
            exact readIndex_corrupt indexed
        | ok index => cases failed

end Refused

section Accepted

theorem vectorFor_some {id : RecordId} {components : List F32}
    (resolved : vectorFor allocator collection id = some components) :
    ∃ slot, collection.records.find? id = some slot := by
  obtain ⟨slot, found, _⟩ := Option.bind_eq_some_iff.mp resolved
  exact ⟨slot, found⟩

theorem covers_graph_iff {dimensionality : UInt32} {metric : DistanceMetric} {data : Bytes}
    {index : HnswIndex} (small : data.length < word) (held : collection.index = some (.hnsw index))
    (read : HnswIndex.deserialize dimensionality metric data (vectorFor allocator collection) =
      some index) : Covers collection ↔ nodeCount data = collection.records.size := by
  obtain ⟨region, written, fits, accepted, isIndex⟩ := HnswIndex.deserialize_some small read
  rw [written] at small
  have known : ∀ id ∈ region.nodes.map StoredNode.id,
      ∃ slot, collection.records.find? id = some slot := by
    intro id member
    obtain ⟨node, inside, named⟩ := List.mem_map.mp member
    obtain ⟨components, resolved⟩ := accepted.resolved node inside
    rw [← named]
    exact vectorFor_some resolved
  have counted := collection.records.members_iff_length accepted.distinct known
  rw [List.length_map, ← nodeCount_put region fits.count small, ← written] at counted
  rw [← counted]
  have members := HnswIndex.load_members dimensionality metric accepted
  rw [← isIndex] at members
  constructor
  · intro covers id
    rw [← members id]
    exact covers _ held id
  · intro all other isOther id
    rw [held, Option.some.injEq] at isOther
    rw [← isOther, ← all id, ← members id]
    rfl

/-- The index of an accepted file covers its records, unless it is a graph that
has fewer nodes. Past the checks before the directory, a refusal is for
corruption. -/
theorem load_covers_iff {outcome : Result Collection}
    (parsed : readPreamble path (.regular content) = .ok preamble)
    (done : load path allocator (.regular content) tag = .ok outcome) :
    (∀ error, outcome = .error error → error.category = .corruption) ∧
      ∀ collection, outcome = .ok collection →
        (Covers collection ↔ (preamble.type = .hnsw →
          nodeCount preamble.indexRegion = preamble.header.recordCount.toNat)) := by
  constructor
  · intro error failed
    rw [failed] at done
    exact load_corrupt parsed done
  · intro collection loaded
    rw [loaded] at done
    obtain ⟨same, records, reader, stages⟩ := load_ok done
    have isSame := stages.parsed
    rw [parsed] at isSame
    cases isSame
    have complete : collection.records.size = preamble.header.recordCount.toNat := by
      rw [stages.result]
      exact stages.complete
    have type : collection.indexType = preamble.type := by
      rw [stages.result]
      rfl
    rw [← type]
    have index := stages.indexRead
    generalize collection.indexType = isType at index
    generalize held : collection.index = isIndex at index
    cases index with
    | none =>
        refine iff_of_true ?_ (fun isHnsw => by cases isHnsw)
        intro other isHeld
        rw [held] at isHeld
        cases isHeld
    | hnsw read =>
        rw [covers_graph_iff stages.region_small held read, complete]
        exact ⟨fun equal _ => equal, fun condition => condition rfl⟩
    | ivf _ built =>
        obtain ⟨view, shows_⟩ := stages.shows
        obtain ⟨rebuilt, result, _, mirrors⟩ := rebuildIvf_total path shows_ stages.named _
        refine iff_of_true ?_ (fun isHnsw => by cases isHnsw)
        rw [built] at result
        cases result
        exact covers_of_mirrors shows_ held mirrors

def halfIndexed : CollectionSnapshotData :=
  { config := ⟨[99], 1, .euclidean⟩
    indexType := .hnsw
    records := [⟨[97], [0], none⟩, ⟨[98], [1], none⟩]
    indexBlob := HnswRegion.put ⟨2, 1, 0, 0, 0, [⟨[97], 0, [[]]⟩]⟩ }

def halfIndexedFile : FileContent :=
  ⟨(encode halfIndexed).toOption.getD [], by decide +kernel⟩

theorem load_covers_iff_of_half_indexed :
    ∃ (preamble : Preamble) (outcome : Result Collection),
      load [] (MemoryAllocator.new 64 (fun _ => 0)) (.regular halfIndexedFile) 1 =
        .ok outcome ∧
      (∀ error, outcome = .error error → error.category = .corruption) ∧
      ∀ collection, outcome = .ok collection →
        (Covers collection ↔ (preamble.type = .hnsw →
          nodeCount preamble.indexRegion = preamble.header.recordCount.toNat)) := by
  obtain ⟨preamble, parsed⟩ := ok_of_isOk
    (show (readPreamble [] (.regular halfIndexedFile)).isOk = true by decide +kernel)
  obtain ⟨outcome, done⟩ := ok_of_isOk
    (show (load [] (MemoryAllocator.new 64 (fun _ => 0)) (.regular halfIndexedFile) 1).isOk = true
      by decide +kernel)
  exact ⟨preamble, outcome, done, load_covers_iff parsed done⟩

theorem load_leaves_a_record_out :
    ¬ ∀ (path : Bytes) (allocator : MemoryAllocator) (content : FileContent) (tag : Nat)
      (collection : Collection),
      load path allocator (.regular content) tag = .ok (.ok collection) → Covers collection := by
  intro covers
  have told : (load [] (MemoryAllocator.new 64 (fun _ => 0)) (.regular halfIndexedFile) 1).toOption.any
      (fun outcome => outcome.toOption.any (fun collection =>
        (collection.records.find? [98]).isSome && collection.index.any (fun index =>
          decide (index.roster.vectorOf [98] = none)))) = true := by decide +kernel
  obtain ⟨outcome, loaded, told⟩ := ok_of_any told
  obtain ⟨collection, isLoaded, told⟩ := ok_of_any told
  rw [isLoaded] at loaded
  rw [Bool.and_eq_true] at told
  obtain ⟨index, held, missing⟩ := (Option.any_eq_true _ _).mp told.2
  obtain ⟨vec, inside⟩ := (covers _ _ _ _ collection loaded index held [98]).mpr
    (Option.isSome_iff_exists.mp told.1)
  rw [of_decide_eq_true missing] at inside
  cases inside

end Accepted

end PersistenceManager

end VectorVault
