import Mathlib.Data.List.Destutter
import VectorVault.HnswReload

/-! The canonical form of an index, and what reading it back gives.

The form of a well-formed index passes every check of `deserialize`; the index
it is read as is well formed again, and has the same form. -/

namespace VectorVault

open Snapshot FloatOrder

namespace HnswIndex

variable {index : HnswIndex}

theorem mem_liveNodes (node : HnswNode) (number : Nat) :
    (node, number) ∈ index.liveNodes ↔
      index.nodes[number]? = some node ∧ node.deleted = false := by
  rw [liveNodes, mem_sortBy, List.mem_filter, List.mk_mem_zipIdx_iff_getElem?]
  simp

theorem liveNodes_numbers_nodup (index : HnswIndex) : (index.liveNodes.map Prod.snd).Nodup := by
  have numbers : (index.nodes.zipIdx.map Prod.snd).Nodup := by
    rw [List.zipIdx_map_snd]
    exact List.nodup_range'
  have kept := (List.filter_sublist (l := index.nodes.zipIdx)
    (p := fun entry => !entry.1.deleted)).map Prod.snd
  exact ((sortBy_perm _ _).map Prod.snd).nodup_iff.mpr (kept.nodup numbers)

def Distinct (index : HnswIndex) : Prop :=
  ∀ (first second : Nat) (a b : HnswNode), index.nodes[first]? = some a → index.nodes[second]? = some b →
    a.id = b.id → first = second

theorem WellFormed.ids (wellFormed : index.WellFormed) : index.Distinct := by
  intro first second a b foundA foundB same
  have numberA := (wellFormed.directory a.id first).mpr ⟨a, foundA, rfl⟩
  have numberB := (wellFormed.directory a.id second).mpr ⟨b, foundB, same.symm⟩
  rw [numberA] at numberB
  exact Option.some.inj numberB

theorem liveNodes_ascending (distinct : index.Distinct) :
    (index.liveNodes.map (fun entry => entry.1.id)).Pairwise (· < ·) := by
  have sorted := sortBy_pairwise (fun first second : HnswNode × Nat =>
    decide (first.1.id < second.1.id)) (fun entry => entry.1.id) (fun first second => by simp)
    (index.nodes.zipIdx.filter (fun entry => !entry.1.deleted))
  have numbers := index.liveNodes_numbers_nodup
  rw [List.nodup_iff_pairwise_ne, List.pairwise_map] at numbers
  rw [List.pairwise_map]
  apply (sorted.and numbers).imp_of_mem
  intro first second memberFirst memberSecond both
  have foundFirst := ((mem_liveNodes first.1 first.2).mp memberFirst).1
  have foundSecond := ((mem_liveNodes second.1 second.2).mp memberSecond).1
  apply lt_of_le_of_ne both.1
  intro same
  exact both.2 (distinct _ _ _ _ foundFirst foundSecond same)

theorem canonical_eq_some (number c : Nat) :
    index.canonical number = some c ↔ (index.liveNodes.map Prod.snd)[c]? = some number := by
  rw [canonical, List.idxOf?_eq_some_iff, List.getElem?_eq_some_iff]
  constructor
  · intro found
    obtain ⟨inside, there, _⟩ := found
    exact ⟨inside, there⟩
  · intro found
    obtain ⟨inside, there⟩ := found
    have first : ∀ j (less : j < c), ¬ (index.liveNodes.map Prod.snd)[j] = number := by
      intro j less same
      have equal := (List.Nodup.getElem_inj_iff index.liveNodes_numbers_nodup).mp
        (same.trans there.symm)
      omega
    exact ⟨inside, there, first⟩

theorem canonical_live {number c : Nat} (found : index.canonical number = some c) :
    ∃ node, index.liveNodes[c]? = some (node, number) ∧ index.nodes[number]? = some node ∧
      node.deleted = false := by
  rw [canonical_eq_some, List.getElem?_map] at found
  obtain ⟨⟨node, other⟩, held, same⟩ := Option.map_eq_some_iff.mp found
  simp only at same
  rw [same] at held
  have live := (mem_liveNodes node number).mp (List.mem_of_getElem? held)
  exact ⟨node, held, live.1, live.2⟩

theorem unique_of_ascending {numbers : List Nat} (ascending : numbers.Pairwise (· < ·)) :
    unique numbers = numbers := by
  rw [unique, List.destutter_eq_self_iff]
  exact (ascending.imp (fun less => less.ne)).isChain

theorem unique_sorted (numbers : List Nat) :
    unique (numbers.insertionSort (· ≤ ·)) = (numbers.insertionSort (· ≤ ·)).dedup :=
  (List.pairwise_insertionSort (· ≤ ·) numbers).destutter_eq_dedup

theorem remapped_ascending (index : HnswIndex) (node : HnswNode) (layer : Nat) :
    (index.remapped node layer).Pairwise (· < ·) := by
  rw [remapped, unique_sorted]
  generalize (if layer < node.neighbors.length
    then (node.neighbors.getD layer []).filterMap index.canonical else []) = kept
  have sorted := (List.pairwise_insertionSort (· ≤ ·) kept).sublist (List.dedup_sublist _)
  have distinct := List.nodup_dedup (kept.insertionSort (· ≤ ·))
  exact (sorted.and distinct).imp (fun both => lt_of_le_of_ne both.1 both.2)

theorem mem_remapped (index : HnswIndex) {node : HnswNode} {layer : Nat} (long : layer < node.neighbors.length)
    (c : Nat) : c ∈ index.remapped node layer ↔
      ∃ number ∈ node.neighbors.getD layer [], index.canonical number = some c := by
  rw [remapped, unique_sorted, List.mem_dedup, List.mem_insertionSort, if_pos long,
    List.mem_filterMap]

theorem remapped_lt {node : HnswNode} {layer c : Nat} (inside : c ∈ index.remapped node layer) :
    c < index.liveNodes.length := by
  by_cases long : layer < node.neighbors.length
  · obtain ⟨number, _, found⟩ := (index.mem_remapped long c).mp inside
    obtain ⟨_, there, _⟩ := canonical_live found
    exact (List.getElem?_eq_some_iff.mp there).1
  · rw [remapped, unique_sorted, List.mem_dedup, List.mem_insertionSort, if_neg long] at inside
    cases inside

theorem remapped_length_le (index : HnswIndex) {node : HnswNode} {layer : Nat}
    (long : layer < node.neighbors.length) :
    (index.remapped node layer).length ≤ (node.neighbors.getD layer []).length := by
  rw [remapped, unique_sorted, if_pos long]
  calc _ ≤ (((node.neighbors.getD layer []).filterMap index.canonical).insertionSort
        (· ≤ ·)).length := (List.dedup_sublist _).length_le
    _ = ((node.neighbors.getD layer []).filterMap index.canonical).length :=
        List.length_insertionSort _ _
    _ ≤ (node.neighbors.getD layer []).length := List.length_filterMap_le _ _

theorem remapped_length_le_live (index : HnswIndex) (node : HnswNode) (layer : Nat) :
    (index.remapped node layer).length ≤ index.liveNodes.length := by
  have distinct : (index.remapped node layer).Nodup :=
    (index.remapped_ascending node layer).imp (fun less => less.ne)
  have bounded : index.remapped node layer ⊆ List.range index.liveNodes.length :=
    fun c inside => List.mem_range.mpr (remapped_lt inside)
  have counted := (distinct.subperm bounded).length_le
  rw [List.length_range] at counted
  exact counted

theorem electEntry_cases (tops : List Nat) (c : Nat) (best : Int × UInt32) :
    (electEntry tops c best = best ∧ ∀ top ∈ tops, (top : Int) ≤ best.1) ∨
      ∃ i top : Nat, tops[i]? = some top ∧ electEntry tops c best = ((top : Int), UInt32.ofNat (c + i)) ∧
        best.1 < top ∧ (∀ other ∈ tops, other ≤ top) ∧
        ∀ j other, j < i → tops[j]? = some other → other < top := by
  induction tops generalizing c best with
  | nil => exact Or.inl ⟨rfl, by simp⟩
  | cons head tail ih =>
      rw [electEntry]
      by_cases higher : (head : Int) > best.1
      · rw [if_pos higher]
        right
        rcases ih (c + 1) ((head : Int), UInt32.ofNat c) with ⟨same, low⟩ |
          ⟨i, top, found, elected, above, largest, earliest⟩
        · have largest : ∀ other ∈ head :: tail, other ≤ head := by
            intro other member
            rcases List.mem_cons.mp member with rfl | member
            · exact le_refl _
            · have atMost := low other member
              omega
          exact ⟨0, head, rfl, by rw [same, Nat.add_zero], higher, largest,
            fun j other less => by omega⟩
        · have largestNow : ∀ other ∈ head :: tail, other ≤ top := by
            intro other member
            rcases List.mem_cons.mp member with rfl | member
            · simp only at above
              omega
            · exact largest other member
          have earliestNow : ∀ j other, j < i + 1 → (head :: tail)[j]? = some other →
              other < top := by
            intro j other less there
            cases j with
            | zero =>
                simp only [List.getElem?_cons_zero, Option.some.injEq] at there
                simp only at above
                omega
            | succ j => exact earliest j other (by omega) (by simpa using there)
          have number : c + 1 + i = c + (i + 1) := by omega
          exact ⟨i + 1, top, by simpa using found, by rw [elected, number],
            by simp only at above; omega, largestNow, earliestNow⟩
      · rw [if_neg higher]
        rcases ih (c + 1) best with ⟨same, low⟩ |
          ⟨i, top, found, elected, above, largest, earliest⟩
        · left
          have lowNow : ∀ top ∈ head :: tail, (top : Int) ≤ best.1 := by
            intro top member
            rcases List.mem_cons.mp member with rfl | member
            · omega
            · exact low top member
          exact ⟨same, lowNow⟩
        · right
          have largestNow : ∀ other ∈ head :: tail, other ≤ top := by
            intro other member
            rcases List.mem_cons.mp member with rfl | member
            · omega
            · exact largest other member
          have earliestNow : ∀ j other, j < i + 1 → (head :: tail)[j]? = some other →
              other < top := by
            intro j other less there
            cases j with
            | zero =>
                simp only [List.getElem?_cons_zero, Option.some.injEq] at there
                omega
            | succ j => exact earliest j other (by omega) (by simpa using there)
          have number : c + 1 + i = c + (i + 1) := by omega
          exact ⟨i + 1, top, by simpa using found, by rw [elected, number], above, largestNow,
            earliestNow⟩

theorem asInt_asU32 {value : Int} (low : -1 ≤ value) (high : value < 2 ^ 31) :
    asInt (asU32 value) = value := by
  have bounded : (value % 2 ^ 32).toNat < 2 ^ 32 := by omega
  rw [asInt, asU32, UInt32.toNat_ofNat_of_lt' bounded]
  split <;> omega

theorem asInt_ofNat {number : Nat} (small : number < 2 ^ 31) :
    asInt (UInt32.ofNat number) = number := by
  rw [asInt, UInt32.toNat_ofNat_of_lt' (show number < UInt32.size by
    simp only [UInt32.size]
    omega), if_pos small]

theorem liveNodes_length_le (index : HnswIndex) : index.liveNodes.length ≤ index.nodes.length := by
  rw [liveNodes, length_sortBy]
  have kept := List.length_filter_le (fun entry : HnswNode × Nat => !entry.1.deleted)
    index.nodes.zipIdx
  rw [List.length_zipIdx] at kept
  exact kept

theorem mem_canonicalForm {stored : StoredNode} (member : stored ∈ index.canonicalForm.nodes) :
    ∃ node number, (node, number) ∈ index.liveNodes ∧ stored = index.storedNode node := by
  obtain ⟨⟨node, number⟩, inside, same⟩ := List.mem_map.mp member
  exact ⟨node, number, inside, same.symm⟩

theorem canonicalForm_length (index : HnswIndex) : index.canonicalForm.nodes.length = index.liveNodes.length := by
  simp [canonicalForm]

theorem canonicalForm_entry (index : HnswIndex) (small : index.nodes.length < 2 ^ 31)
    (some_ : index.liveNodes ≠ []) :
    ∃ (c : Nat) (node : HnswNode) (number : Nat), index.liveNodes[c]? = some (node, number) ∧
      index.canonicalForm.entry = UInt32.ofNat c ∧ c < 2 ^ 31 ∧
      index.canonicalForm.maxLevel = asU32 node.topLayer ∧
      (∀ entry ∈ index.liveNodes, entry.1.topLayer ≤ node.topLayer) ∧
      ∀ j entry, j < c → index.liveNodes[j]? = some entry → entry.1.topLayer < node.topLayer := by
  have fewer := liveNodes_length_le index
  rcases electEntry_cases (index.liveNodes.map (fun entry => entry.1.topLayer)) 0
      (-1, 0xFFFFFFFF) with
    ⟨_, low⟩ | ⟨c, top, found, elected, _, largest, earliest⟩
  · obtain ⟨entry, rest, shape⟩ := List.exists_cons_of_ne_nil some_
    have negative := low entry.1.topLayer (by rw [shape]; simp)
    simp only at negative
    omega
  · rw [List.getElem?_map] at found
    obtain ⟨⟨node, number⟩, held, isTop⟩ := Option.map_eq_some_iff.mp found
    have inside := (List.getElem?_eq_some_iff.mp held).1
    have entry : index.canonicalForm.entry = UInt32.ofNat c := by
      simp only [canonicalForm, elected, Nat.zero_add]
    have level : index.canonicalForm.maxLevel = asU32 node.topLayer := by
      simp only [canonicalForm, elected, ← isTop]
    have highest : ∀ entry ∈ index.liveNodes, entry.1.topLayer ≤ node.topLayer := by
      intro other member
      have atMost := largest other.1.topLayer (List.mem_map.mpr ⟨other, member, rfl⟩)
      simp only at isTop
      omega
    have first : ∀ j entry, j < c → index.liveNodes[j]? = some entry →
        entry.1.topLayer < node.topLayer := by
      intro j other less there
      have below := earliest j other.1.topLayer less (by rw [List.getElem?_map, there]; rfl)
      simp only at isTop
      omega
    exact ⟨c, node, number, held, entry, by omega, level, highest, first⟩

theorem canonicalForm_within (small : index.nodes.length < 2 ^ 31) :
    ∀ stored ∈ index.canonicalForm.nodes,
      stored.Within (UInt32.ofNat index.canonicalForm.nodes.length) := by
  intro stored member neighbors listed neighbor inList
  have fewer := liveNodes_length_le index
  obtain ⟨node, number, inside, same⟩ := mem_canonicalForm member
  rw [same] at listed
  obtain ⟨layer, inRange, isList⟩ := List.mem_map.mp listed
  rw [← isList] at inList
  obtain ⟨c, remappedC, isNeighbor⟩ := List.mem_map.mp inList
  have less := remapped_lt remappedC
  rw [canonicalForm_length index, ← isNeighbor, UInt32.lt_iff_toNat_lt,
    UInt32.toNat_ofNat_of_lt' (show c < UInt32.size by simp only [UInt32.size]; omega),
    UInt32.toNat_ofNat_of_lt' (show index.liveNodes.length < UInt32.size by
      simp only [UInt32.size]; omega)]
  exact less

/-- What writing an index relies on; every index the program holds meets it. -/
structure Writable (index : HnswIndex) : Prop where
  ids : index.Distinct
  tops : ∀ node ∈ index.nodes, node.topLayer < 2 ^ 31
  upper : 2 ≤ index.maxNeighborsUpper.toNat
  explores : 1 ≤ index.efConstruction.toNat

theorem WellFormed.writable (wellFormed : index.WellFormed) : index.Writable :=
  ⟨wellFormed.ids, wellFormed.tops, wellFormed.upper, wellFormed.traversable.explores⟩

section Lists

variable (wellFormed : index.WellFormed)

include wellFormed

theorem live_neighbors {node : HnswNode} {number layer : Nat}
    (member : (node, number) ∈ index.liveNodes) (atMost : layer ≤ node.topLayer) :
    layer < node.neighbors.length ∧ node.neighbors.getD layer [] = index.linked layer number := by
  have found := ((mem_liveNodes node number).mp member).1
  have length := wellFormed.traversable.lists node (List.mem_of_getElem? found)
  have same : node.neighbors.getD layer [] = index.linked layer number := by
    simp only [linked, found, List.getD_eq_getElem?_getD]
  exact ⟨by omega, same⟩

theorem remapped_live {node : HnswNode} {number layer : Nat}
    (member : (node, number) ∈ index.liveNodes) (atMost : layer ≤ node.topLayer) :
    (index.remapped node layer).length ≤ index.maxNeighborsForLayer layer ∧
      ∀ c, c ∈ index.remapped node layer ↔
        ∃ next ∈ index.linked layer number, index.canonical next = some c := by
  obtain ⟨long, same⟩ := live_neighbors wellFormed member atMost
  have degree := wellFormed.tidy.degree layer number
  have length := index.remapped_length_le long
  have members := index.mem_remapped long
  rw [same] at length members
  exact ⟨length.trans degree, members⟩

end Lists

section Form

variable (writable : index.Writable)

include writable

theorem storedNode_top {node : HnswNode} {number : Nat}
    (member : (node, number) ∈ index.liveNodes) :
    (index.storedNode node).topLayer.toNat = node.topLayer := by
  have found := ((mem_liveNodes node number).mp member).1
  have small := writable.tops node (List.mem_of_getElem? found)
  exact UInt32.toNat_ofNat_of_lt' (lt_trans small (by decide))

theorem storedNode_fits (small : index.nodes.length < 2 ^ 31) {node : HnswNode} {number : Nat}
    (inside : (node, number) ∈ index.liveNodes) (short : node.id.length < 2 ^ 32) :
    (index.storedNode node).Fits := by
  have top := storedNode_top writable inside
  have found := ((mem_liveNodes node number).mp inside).1
  have low := writable.tops node (List.mem_of_getElem? found)
  constructor
  · exact short
  · rw [top]
    exact low
  · rw [top]
    simp [storedNode]
  · intro neighbors listed
    obtain ⟨layer, inRange, isList⟩ := List.mem_map.mp listed
    have bound := remapped_length_le_live index node layer
    have fewer := liveNodes_length_le index
    rw [← isList, List.length_map]
    omega

theorem canonicalForm_fits (small : index.nodes.length < 2 ^ 31)
    (ids : ∀ node number, (node, number) ∈ index.liveNodes → node.id.length < 2 ^ 32) :
    index.canonicalForm.Fits := by
  have fewer := liveNodes_length_le index
  have each : ∀ stored ∈ index.canonicalForm.nodes, stored.Fits := by
    intro stored member
    obtain ⟨node, number, inside, same⟩ := mem_canonicalForm member
    rw [same]
    exact storedNode_fits writable small inside (ids node number inside)
  exact ⟨by rw [canonicalForm_length index]; omega, each⟩

theorem canonicalForm_ascending :
    (index.canonicalForm.nodes.map StoredNode.id).Pairwise (· < ·) := by
  have ascending := liveNodes_ascending writable.ids
  have ids : index.canonicalForm.nodes.map StoredNode.id =
      index.liveNodes.map (fun entry => entry.1.id) := by
    simp [canonicalForm, storedNode, Function.comp_def]
  rw [ids]
  exact ascending

theorem canonicalForm_accepted (small : index.nodes.length < 2 ^ 31)
    {vectorFor : RecordId → Option (List F32)}
    (resolves : ∀ node number, (node, number) ∈ index.liveNodes →
      ∃ components, vectorFor node.id = some components) :
    index.canonicalForm.Accepted vectorFor := by
  have ascending := canonicalForm_ascending writable
  have entry : index.canonicalForm.nodes ≠ [] → index.canonicalForm.entry ≠ 0xFFFFFFFF ∧
      index.canonicalForm.entry.toNat < index.canonicalForm.nodes.length := by
    intro nonempty
    have some_ : index.liveNodes ≠ [] := by
      intro none
      apply nonempty
      simp [canonicalForm, none]
    obtain ⟨c, node, number, held, isEntry, low, _, _⟩ := canonicalForm_entry index small some_
    have inside := (List.getElem?_eq_some_iff.mp held).1
    have number : (UInt32.ofNat c).toNat = c :=
      UInt32.toNat_ofNat_of_lt' (lt_trans low (by decide))
    rw [isEntry, canonicalForm_length index, number]
    have named : UInt32.ofNat c ≠ 0xFFFFFFFF := by
      intro same
      have values := congrArg UInt32.toNat same
      rw [number] at values
      have largest : (0xFFFFFFFF : UInt32).toNat = 2 ^ 32 - 1 := rfl
      omega
    exact ⟨named, inside⟩
  constructor
  · exact canonicalForm_within small
  · exact ascending.imp (fun less => less.ne)
  · intro stored member
    obtain ⟨node, number, inside, same⟩ := mem_canonicalForm member
    rw [same]
    exact resolves node number inside
  · exact entry

end Form

end HnswIndex

end VectorVault
