import VectorVault.HnswWellFormed
import VectorVault.Ivf
import VectorVault.HnswRegion

/-! The two index types behind one interface, and what they hold.

Both keep a table of entries, tombstones included, and a directory from
identifiers to table positions. A roster is that part of either. -/

namespace VectorVault

inductive Index where
  | hnsw (index : HnswIndex)
  | ivf (index : IvfIndex)

namespace Index

def graph? : Index → Option HnswIndex
  | .hnsw index => some index
  | .ivf _ => none

def file? : Index → Option IvfIndex
  | .hnsw _ => none
  | .ivf index => some index

theorem graph_eq_some {index : Index} {graph : HnswIndex} (isGraph : index.graph? = some graph) :
    index = .hnsw graph := by
  cases index with
  | hnsw held => exact congrArg hnsw (Option.some.inj isGraph)
  | ivf held => cases isGraph

theorem file_eq_some {index : Index} {file : IvfIndex} (isFile : index.file? = some file) :
    index = .ivf file := by
  cases index with
  | hnsw held => cases isFile
  | ivf held => exact congrArg ivf (Option.some.inj isFile)

def type : Index → IndexType
  | .hnsw _ => .hnsw
  | .ivf _ => .ivf

def size : Index → Nat
  | .hnsw index => index.liveCount
  | .ivf index => index.liveCount

def serialize : Index → Bytes
  | .hnsw index => index.serialize
  | .ivf index => index.serialize

section Operations

variable {D : Type} [FloatOrder D] (host : Host D)

def add (index : Index) (id : RecordId) (vec : List F32) : Run (Status × Index) :=
  match index with
  | .hnsw index => do
      let (status, after) ← index.add host id vec
      return (status, .hnsw after)
  | .ivf index => do
      let (status, after) ← index.add id vec
      return (status, .ivf after)

def remove (index : Index) (id : RecordId) : Run (Status × Index) :=
  match index with
  | .hnsw index => do
      let (status, after) ← index.remove id
      return (status, .hnsw after)
  | .ivf index => do
      let (status, after) ← index.remove id
      return (status, .ivf after)

def search (index : Index) (q : List F32) (k : UInt32) (params : QueryParams) :
    Run (List (Candidate D) × Index) :=
  match index with
  | .hnsw index => do
      let candidates ← index.search host q k params
      return (candidates, .hnsw index)
  | .ivf index => do
      let (candidates, after) ← index.search host q k params
      return (candidates, .ivf after)

end Operations

end Index

structure Roster where
  entries : List IvfEntry
  directory : OrderedMap RecordId Nat

namespace Roster

def Live (entry : IvfEntry) : Bool := !entry.deleted

def vectorOf (roster : Roster) (id : RecordId) : Option (List F32) :=
  (roster.directory.find? id).bind (fun slot => (roster.entries[slot]?).bind (fun entry =>
    if entry.deleted then none else some entry.vector))

def liveCount (roster : Roster) : Nat := roster.entries.countP Live

def Sound (roster : Roster) : Prop :=
  ∀ id slot, roster.directory.find? id = some slot ↔
    ∃ entry, roster.entries[slot]? = some entry ∧ entry.id = id

variable {roster : Roster}

theorem Sound.vectorOf_iff (sound : roster.Sound) (id : RecordId) (vec : List F32) :
    roster.vectorOf id = some vec ↔
      ∃ entry ∈ roster.entries, entry.id = id ∧ entry.deleted = false ∧ entry.vector = vec := by
  constructor
  · intro held
    obtain ⟨slot, known, held⟩ := Option.bind_eq_some_iff.mp held
    obtain ⟨entry, found, held⟩ := Option.bind_eq_some_iff.mp held
    obtain ⟨other, there, named⟩ := (sound id slot).mp known
    rw [found, Option.some.injEq] at there
    cases live : entry.deleted with
    | true => simp [live] at held
    | false =>
        simp only [live, Bool.false_eq_true, if_false, Option.some.injEq] at held
        exact ⟨entry, List.mem_of_getElem? found, by rw [there]; exact named, live, held⟩
  · intro held
    obtain ⟨entry, member, named, live, same⟩ := held
    obtain ⟨slot, found⟩ := List.getElem?_of_mem member
    have known := (sound id slot).mpr ⟨entry, found, named⟩
    simp only [vectorOf, known, found, Option.bind_some, live, Bool.false_eq_true, if_false, same]

theorem Sound.set (sound : roster.Sound) {slot : Nat} {held new : IvfEntry}
    (found : roster.entries[slot]? = some held) (named : new.id = held.id) :
    Sound ⟨roster.entries.set slot new, roster.directory⟩ := by
  have inside := (List.getElem?_eq_some_iff.mp found).1
  intro id other
  rw [sound id other]
  simp only [List.getElem?_set]
  by_cases here : slot = other
  · subst here
    simp only [if_true, if_pos inside, found, Option.some.injEq, exists_eq_left', named]
  · rw [if_neg here]

theorem Sound.set_vectorOf (sound : roster.Sound) {slot : Nat} {held new : IvfEntry}
    (found : roster.entries[slot]? = some held) (id : RecordId) :
    vectorOf ⟨roster.entries.set slot new, roster.directory⟩ id =
      if id = held.id then (if new.deleted then none else some new.vector)
      else roster.vectorOf id := by
  have inside := (List.getElem?_eq_some_iff.mp found).1
  by_cases named : id = held.id
  · have known := (sound id slot).mpr ⟨held, found, named.symm⟩
    rw [if_pos named]
    simp only [vectorOf, known, Option.bind_some, List.getElem?_set, if_true, if_pos inside]
  · rw [if_neg named]
    simp only [vectorOf]
    cases known : roster.directory.find? id with
    | none => rfl
    | some other =>
        have apart : slot ≠ other := by
          intro same
          rw [← same] at known
          obtain ⟨entry, there, isId⟩ := (sound id slot).mp known
          rw [found, Option.some.injEq] at there
          exact named (by rw [there]; exact isId.symm)
        simp only [Option.bind_some, List.getElem?_set, if_neg apart]

theorem Sound.append (sound : roster.Sound) (new : IvfEntry)
    (absent : roster.directory.find? new.id = none) :
    Sound ⟨roster.entries ++ [new], roster.directory.emplace new.id roster.entries.length⟩ := by
  intro id slot
  rw [OrderedMap.emplace_of_absent _ _ _ absent, OrderedMap.find_insert]
  by_cases named : id = new.id
  · subst named
    simp only [if_true, Option.some.injEq]
    constructor
    · intro last
      exact ⟨new, by rw [← last, List.getElem?_concat_length], rfl⟩
    · intro there
      obtain ⟨entry, found, isId⟩ := there
      rcases lt_trichotomy slot roster.entries.length with old | last | beyond
      · rw [List.getElem?_append_left old] at found
        have known := (sound new.id slot).mpr ⟨entry, found, isId⟩
        rw [absent] at known
        cases known
      · exact last.symm
      · rw [List.getElem?_eq_none (by rw [List.length_append, List.length_singleton]; omega)] at found
        cases found
  · rw [if_neg named, sound id slot]
    constructor
    · intro there
      obtain ⟨entry, found, isId⟩ := there
      have inside := (List.getElem?_eq_some_iff.mp found).1
      exact ⟨entry, by rw [List.getElem?_append_left inside]; exact found, isId⟩
    · intro there
      obtain ⟨entry, found, isId⟩ := there
      by_cases old : slot < roster.entries.length
      · rw [List.getElem?_append_left old] at found
        exact ⟨entry, found, isId⟩
      · rw [List.getElem?_append_right (by omega)] at found
        have isNew := List.mem_singleton.mp (List.mem_of_getElem? found)
        rw [isNew] at isId
        exact absurd isId.symm named

theorem Sound.append_vectorOf (sound : roster.Sound) (new : IvfEntry)
    (absent : roster.directory.find? new.id = none) (id : RecordId) :
    vectorOf ⟨roster.entries ++ [new],
        roster.directory.emplace new.id roster.entries.length⟩ id =
      if id = new.id then (if new.deleted then none else some new.vector)
      else roster.vectorOf id := by
  simp only [vectorOf, OrderedMap.emplace_of_absent _ _ _ absent, OrderedMap.find_insert]
  by_cases named : id = new.id
  · rw [if_pos named, if_pos named]
    simp only [Option.bind_some, List.getElem?_concat_length]
  · rw [if_neg named, if_neg named]
    cases known : roster.directory.find? id with
    | none => rfl
    | some slot =>
        obtain ⟨entry, found, _⟩ := (sound id slot).mp known
        have inside := (List.getElem?_eq_some_iff.mp found).1
        simp only [Option.bind_some, List.getElem?_append_left inside]

theorem Sound.nodup_ids (sound : roster.Sound) : (roster.entries.map IvfEntry.id).Nodup := by
  rw [List.nodup_iff_getElem?_ne_getElem?]
  intro first second less inside equal
  rw [List.length_map] at inside
  rw [List.getElem?_map, List.getElem?_map,
    List.getElem?_eq_getElem (show first < roster.entries.length by omega),
    List.getElem?_eq_getElem inside, Option.map_some, Option.map_some,
    Option.some.injEq] at equal
  have knownFirst := (sound _ first).mpr ⟨_, List.getElem?_eq_getElem (by omega), rfl⟩
  have knownSecond := (sound _ second).mpr ⟨_, List.getElem?_eq_getElem inside, rfl⟩
  rw [equal, knownSecond, Option.some.injEq] at knownFirst
  omega

theorem Sound.liveCount_eq (sound : roster.Sound) {V : Type} (records : OrderedMap RecordId V)
    (vector : V → List F32)
    (same : ∀ id, roster.vectorOf id = (records.find? id).map vector) :
    roster.liveCount = records.size := by
  have members : ∀ id, id ∈ (roster.entries.filter Live).map IvfEntry.id ↔ id ∈ records.keys := by
    intro id
    rw [OrderedMap.mem_keys_iff, List.mem_map]
    constructor
    · intro there
      obtain ⟨entry, member, named⟩ := there
      obtain ⟨inside, live⟩ := List.mem_filter.mp member
      have held := (sound.vectorOf_iff id entry.vector).mpr
        ⟨entry, inside, named, by simpa [Live] using live, rfl⟩
      rw [same id] at held
      obtain ⟨value, found, _⟩ := Option.map_eq_some_iff.mp held
      exact ⟨value, found⟩
    · intro there
      obtain ⟨value, found⟩ := there
      have held : roster.vectorOf id = some (vector value) := by
        rw [same id, found]
        rfl
      obtain ⟨entry, inside, named, live, _⟩ := (sound.vectorOf_iff id _).mp held
      exact ⟨entry, List.mem_filter.mpr ⟨inside, by simp [Live, live]⟩, named⟩
  have distinct : ((roster.entries.filter Live).map IvfEntry.id).Nodup :=
    (List.filter_sublist.map IvfEntry.id).nodup sound.nodup_ids
  have permuted := (List.perm_ext_iff_of_nodup distinct records.nodup_keys).mpr members
  calc roster.liveCount = (roster.entries.filter Live).length := List.countP_eq_length_filter
    _ = ((roster.entries.filter Live).map IvfEntry.id).length := (List.length_map _).symm
    _ = records.keys.length := permuted.length_eq
    _ = records.size := records.size_keys

end Roster

end VectorVault
