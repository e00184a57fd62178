import VectorVault.HnswRegionCodec
import VectorVault.HnswWellFormed

/-! The index a region is read as, and the region an index is written as. -/

namespace VectorVault

open Snapshot FloatOrder

namespace HnswRegion

structure Fits (region : HnswRegion) : Prop where
  count : region.nodes.length < 2 ^ 32
  nodes : ∀ node ∈ region.nodes, node.Fits

/-- The checks of `deserialize`, on the fields of the region. -/
structure Accepted (vectorFor : RecordId → Option (List F32)) (region : HnswRegion) : Prop where
  within : ∀ node ∈ region.nodes, node.Within (UInt32.ofNat region.nodes.length)
  distinct : (region.nodes.map StoredNode.id).Nodup
  resolved : ∀ node ∈ region.nodes, ∃ components, vectorFor node.id = some components
  entry : region.nodes ≠ [] → region.entry ≠ 0xFFFFFFFF ∧ region.entry.toNat < region.nodes.length

def nodesOf (vectorFor : RecordId → Option (List F32)) (region : HnswRegion) : List HnswNode :=
  region.nodes.map (fun node => node.load ((vectorFor node.id).getD []))

def params (region : HnswRegion) : IndexParams :=
  { m := region.m, efConstruction := region.efConstruction, seed := region.seed }

def load (dimensionality : UInt32) (metric : DistanceMetric)
    (vectorFor : RecordId → Option (List F32)) (region : HnswRegion) : HnswIndex :=
  { (region.nodesOf vectorFor).foldl HnswIndex.loadNode
      (HnswIndex.new dimensionality metric region.params) with
    liveCount := region.nodes.length
    maxLevel := if region.maxLevel = 0xFFFFFFFF then -1 else HnswIndex.asInt region.maxLevel
    entryPoint := if region.nodes = [] then -1 else HnswIndex.asInt region.entry }

end HnswRegion

namespace HnswIndex

open HnswRegion

section Deserialize

variable {dimensionality : UInt32} {metric : DistanceMetric} {data : Bytes}
  {vectorFor : RecordId → Option (List F32)}

theorem paired_nodesOf {region : HnswRegion} {nodes : List HnswNode} {count : UInt32}
    (paired : List.Forall₂ (fun node entry => StoredNode.Fits entry ∧ entry.Within count ∧
      ∃ components, vectorFor entry.id = some components ∧ node = entry.load components)
      nodes region.nodes) : nodes = region.nodesOf vectorFor := by
  obtain ⟨m, efConstruction, seed, maxLevel, entry, stored⟩ := region
  simp only [nodesOf] at paired ⊢
  induction paired with
  | nil => rfl
  | cons head _ ih =>
      obtain ⟨_, _, components, resolved, isNode⟩ := head
      rw [List.map_cons, ← ih, isNode, resolved]
      rfl

theorem nodesOf_ids (vectorFor : RecordId → Option (List F32)) (region : HnswRegion) :
    (region.nodesOf vectorFor).map HnswNode.id = region.nodes.map StoredNode.id := by
  simp [nodesOf, StoredNode.load, Function.comp_def]

theorem paired_each {nodes : List HnswNode} {entries : List StoredNode} {count : UInt32}
    (paired : List.Forall₂ (fun node entry => StoredNode.Fits entry ∧ entry.Within count ∧
      ∃ components, vectorFor entry.id = some components ∧ node = entry.load components)
      nodes entries) :
    ∀ entry ∈ entries, StoredNode.Fits entry ∧ entry.Within count ∧
      ∃ components, vectorFor entry.id = some components := by
  induction paired with
  | nil =>
      intro entry member
      cases member
  | cons head _ ih =>
      intro entry member
      rcases List.mem_cons.mp member with here | later
      · rcases head with ⟨fits, within, components, resolved, _⟩
        rw [here]
        exact ⟨fits, within, components, resolved⟩
      · exact ih entry later

theorem count_zero_iff {region : HnswRegion} (bounded : region.nodes.length < 2 ^ 32) :
    UInt32.ofNat region.nodes.length = 0 ↔ region.nodes = [] := by
  have countNat : (UInt32.ofNat region.nodes.length).toNat = region.nodes.length :=
    UInt32.toNat_ofNat_of_lt' bounded
  rw [← UInt32.toNat_inj, countNat]
  exact List.length_eq_zero_iff

theorem readEntry_iff {region : HnswRegion} (bounded : region.nodes.length < 2 ^ 32)
    (read index : HnswIndex) :
    (if UInt32.ofNat region.nodes.length = 0 then some { read with entryPoint := -1 }
      else if region.entry = 0xFFFFFFFF ∨ region.entry ≥ UInt32.ofNat region.nodes.length then none
      else some { read with entryPoint := asInt region.entry }) = some index ↔
    (region.nodes ≠ [] → region.entry ≠ 0xFFFFFFFF ∧
      region.entry.toNat < region.nodes.length) ∧
      index = { read with
        entryPoint := if region.nodes = [] then -1 else asInt region.entry } := by
  have countNat : (UInt32.ofNat region.nodes.length).toNat = region.nodes.length :=
    UInt32.toNat_ofNat_of_lt' bounded
  by_cases empty : region.nodes = []
  · rw [if_pos ((count_zero_iff bounded).mpr empty), if_pos empty, Option.some.injEq]
    exact ⟨fun same => ⟨absurd empty, same.symm⟩, fun both => both.2.symm⟩
  · rw [if_neg (mt (count_zero_iff bounded).mp empty), if_neg empty]
    by_cases invalid : region.entry = 0xFFFFFFFF ∨
        region.entry ≥ UInt32.ofNat region.nodes.length
    · rw [if_pos invalid]
      constructor
      · intro read
        cases read
      · intro both
        rcases both.1 empty with ⟨named, inside⟩
        rcases invalid with none | large
        · exact absurd none named
        · rw [ge_iff_le, UInt32.le_iff_toNat_le, countNat] at large
          omega
    · rw [if_neg invalid, Option.some.injEq]
      rw [not_or, ge_iff_le, UInt32.le_iff_toNat_le, countNat] at invalid
      exact ⟨fun same => ⟨fun _ => ⟨invalid.1, by omega⟩, same.symm⟩, fun both => both.2.symm⟩

theorem inverse_front :
    Inverse (getBoth (getBoth (getBoth (getBoth (getBoth ByteReader.getU32 ByteReader.getU32)
        ByteReader.getU64) ByteReader.getU32) ByteReader.getU32) ByteReader.getU32)
      (putBoth (putBoth (putBoth (putBoth (putBoth putU32 putU32) putU64) putU32) putU32) putU32)
      (fun _ => True) :=
  ((((inverse_u32.both inverse_u32).both inverse_u64).both inverse_u32).both inverse_u32).both
    inverse_u32

theorem deserialize_load {region : HnswRegion} (fits : region.Fits)
    (accepted : region.Accepted vectorFor) (small : region.put.length < word) :
    deserialize dimensionality metric region.put vectorFor =
      some (region.load dimensionality metric vectorFor) := by
  have left := ByteReader.left_new region.put small
  have countNat : (UInt32.ofNat region.nodes.length).toNat = region.nodes.length :=
    UInt32.toNat_ofNat_of_lt' fits.count
  rcases inverse_front.forward (ByteReader.new region.put) (((((region.m, region.efConstruction),
    region.seed), UInt32.ofNat region.nodes.length), region.maxLevel), region.entry)
    (region.nodes.flatMap putNode) trivial left with ⟨fields, left⟩
  simp only [getBoth, Prod.mk.injEq] at fields left
  rcases fields with ⟨⟨⟨⟨⟨readM, readEf⟩, readSeed⟩, readCount⟩, readMax⟩, readEntry⟩
  have paired : List.Forall₂ (fun node entry => StoredNode.Fits entry ∧
      entry.Within (UInt32.ofNat region.nodes.length) ∧
      ∃ components, vectorFor entry.id = some components ∧ node = entry.load components)
      (region.nodesOf vectorFor) region.nodes := by
    rw [nodesOf, List.forall₂_map_left_iff, List.forall₂_same]
    intro node member
    obtain ⟨components, resolved⟩ := accepted.resolved node member
    exact ⟨fits.nodes node member, accepted.within node member, components, resolved, by
      rw [resolved]
      rfl⟩
  have distinct : ((region.nodesOf vectorFor).map HnswNode.id).Nodup := by
    rw [nodesOf_ids]
    exact accepted.distinct
  rw [← List.append_nil (region.nodes.flatMap putNode)] at left
  obtain ⟨next, parsed, done⟩ := (readNodes_parses vectorFor (UInt32.ofNat region.nodes.length)
    region.nodes.length (HnswIndex.new dimensionality metric region.params)).forward _
    ((region.nodesOf vectorFor).foldl loadNode (HnswIndex.new dimensionality metric region.params))
    _ _ ⟨region.nodes, region.nodesOf vectorFor, rfl, rfl, paired, fun _ _ => rfl, distinct, rfl⟩
    left
  have consumed : ¬ (next.ok = false ∨ next.remaining ≠ 0) := by
    rw [done.1, done.remaining]
    simp
  rw [deserialize]
  simp only [left.1, Bool.true_eq_false, if_false, readM, readEf, readSeed, readCount, readMax,
    readEntry, countNat]
  change readNodes vectorFor (UInt32.ofNat region.nodes.length) region.nodes.length 0
    (HnswIndex.new dimensionality metric ⟨region.m, region.efConstruction, 0, region.seed⟩) _ = _
    at parsed
  rw [parsed]
  simp only [bind, Option.bind, if_neg consumed, load]
  exact (readEntry_iff fits.count (region.load dimensionality metric vectorFor) _).mpr
    ⟨accepted.entry, rfl⟩

theorem deserialize_some {index : HnswIndex} (small : data.length < word)
    (read : deserialize dimensionality metric data vectorFor = some index) :
    ∃ region : HnswRegion, data = region.put ∧ region.Fits ∧ region.Accepted vectorFor ∧
      index = region.load dimensionality metric vectorFor := by
  have left := ByteReader.left_new data small
  obtain ⟨reader, isReader⟩ : ∃ reader, reader = ByteReader.new data := ⟨_, rfl⟩
  rw [deserialize, ← isReader] at read
  rw [← isReader] at left
  cases okEntry : reader.getU32.2.getU32.2.getU64.2.getU32.2.getU32.2.getU32.2.ok with
  | false =>
      simp only [okEntry, if_true] at read
      cases read
  | true =>
      rcases inverse_front.backward reader data left okEntry with ⟨_, rest, halves, left⟩
      simp only [getBoth] at halves left
      simp only [okEntry, Bool.true_eq_false, if_false] at read
      obtain ⟨⟨loaded, next⟩, parsed, read⟩ := Option.bind_eq_some_iff.mp read
      obtain ⟨part, tail, split, shape, done⟩ := (readNodes_parses vectorFor _ _
        (HnswIndex.new dimensionality metric _)).backward _ _ _ _ left parsed
      obtain ⟨stored, nodes, nodesWritten, size, paired, _, distinct, isLoaded⟩ := shape
      by_cases unread : next.ok = false ∨ next.remaining ≠ 0
      · simp only [if_pos unread] at read
        cases read
      · simp only [if_neg unread] at read
        have nothing : tail = [] := by
          have none := (not_or.mp unread).2
          rw [done.remaining, ne_eq, not_not] at none
          exact List.length_eq_zero_iff.mp none
        obtain ⟨region, isRegion⟩ : ∃ region : HnswRegion, region =
            ⟨reader.getU32.1, reader.getU32.2.getU32.1, reader.getU32.2.getU32.2.getU64.1,
              reader.getU32.2.getU32.2.getU64.2.getU32.2.getU32.1,
              reader.getU32.2.getU32.2.getU64.2.getU32.2.getU32.2.getU32.1, stored⟩ := ⟨_, rfl⟩
        have count : reader.getU32.2.getU32.2.getU64.2.getU32.1 =
            UInt32.ofNat region.nodes.length := by
          rw [isRegion, size]
          exact UInt32.ofNat_toNat.symm
        have written : data = region.put := by
          rw [halves, split, nodesWritten, nothing, count, isRegion, List.append_nil]
          rfl
        have bounded : region.nodes.length < 2 ^ 32 := by
          rw [isRegion, size]
          exact UInt32.toNat_lt _
        have storedNodes : stored = region.nodes := by rw [isRegion]
        rw [storedNodes, count] at paired
        have isNodes := paired_nodesOf paired
        have each := paired_each paired
        have ids : (region.nodes.map StoredNode.id).Nodup := by
          rw [← nodesOf_ids vectorFor, ← isNodes]
          exact distinct
        have entryField : reader.getU32.2.getU32.2.getU64.2.getU32.2.getU32.2.getU32.1 =
            region.entry := by rw [isRegion]
        have maxField : reader.getU32.2.getU32.2.getU64.2.getU32.2.getU32.1 =
            region.maxLevel := by rw [isRegion]
        have paramsField : (⟨reader.getU32.1, reader.getU32.2.getU32.1, 0,
            reader.getU32.2.getU32.2.getU64.1⟩ : IndexParams) = region.params := by
          rw [isRegion]
          rfl
        have countNat : (UInt32.ofNat region.nodes.length).toNat = region.nodes.length :=
          UInt32.toNat_ofNat_of_lt' bounded
        rw [isNodes, paramsField] at isLoaded
        rw [count, entryField, maxField, isLoaded, countNat] at read
        rcases (readEntry_iff bounded (region.load dimensionality metric vectorFor) _).mp read with
          ⟨entry, isIndex⟩
        exact ⟨region, written, ⟨bounded, fun node member => (each node member).1⟩,
          ⟨fun node member => (each node member).2.1, ids,
            fun node member => (each node member).2.2, entry⟩, isIndex⟩

end Deserialize

end HnswIndex

end VectorVault
