import VectorVault.EngineConfiguration
import VectorVault.SnapshotImage

/-! The body of an image, read under a header that need not be the one written.

Which parts of the header a stage of `load` depends on is in what its lemma asks
of the header. -/

namespace VectorVault

open Snapshot ByteReader

structure SnapshotRecord.Fits (record : SnapshotRecord) : Prop where
  named : record.id ≠ []
  id : record.id.length < 2 ^ 32
  metadata : (putMetadata record.metadata).length < 2 ^ 32

structure CollectionSnapshotData.Encodable (data : CollectionSnapshotData) : Prop where
  config : data.config.Valid
  fits : ∀ record ∈ data.records, record.Fits
  sized : ∀ record ∈ data.records, record.vector.length = data.config.dimensionality.toNat
  distinct : (data.records.map SnapshotRecord.id).Nodup
  presence : data.indexType = .none ↔ data.indexBlob = []

namespace PersistenceManager

variable {path : Bytes} {header : Header} {reader : ByteReader} {rest : Bytes}

theorem require_passed {holds : Prop} [Decidable holds] (error : Error) (passed : holds) :
    require holds error = .ok () := if_pos passed

section Directory

theorem readName_forward (path : Bytes) {name : Bytes}
    (length : header.nameLength = UInt32.ofNat name.length) (named : name ≠ [])
    (short : name.length ≤ 255) (left : reader.Left (name ++ rest)) :
    ∃ next, readName path header reader = .ok (name, next) ∧ next.Left rest := by
  have isLength : header.nameLength.toNat = name.length := by
    rw [length]
    exact UInt32.toNat_ofNat_of_lt' (lt_of_le_of_lt short (by decide))
  have read := getRaw_forward left
  refine ⟨(reader.getRaw name.length).2, ?_, read.2⟩
  simp only [readName, isLength, read.1, read.2.1, or_true, require_passed _ trivial, bind,
    Except.bind]
  rw [require_passed _ (show name ≠ [] ∧ name.length ≤ 255 from ⟨named, short⟩)]
  rfl

theorem readEntry_forward (path : Bytes) {record : SnapshotRecord} {number : Nat}
    (fits : record.Fits) (indexed : UInt64.ofNat number < header.recordCount)
    (left : reader.Left (putDirectoryEntry (record, number) ++ rest)) :
    ∃ next, readEntry path header reader =
        .ok (⟨record.id, UInt64.ofNat number, record.metadata⟩, next) ∧ next.Left rest := by
  simp only [putDirectoryEntry, List.append_assoc] at left
  have id := inverse_string.forward reader record.id _ fits.id left
  have place := inverse_u64.forward _ (UInt64.ofNat number) _ trivial id.2
  have length := inverse_u32.forward _ _ _ trivial place.2
  have isLength : reader.getString.2.getU64.2.getU32.1.toNat =
      (putMetadata record.metadata).length := by
    rw [length.1]
    exact UInt32.toNat_ofNat_of_lt' fits.metadata
  have blob := getRaw_forward length.2
  have small : (putMetadata record.metadata).length < word :=
    lt_trans fits.metadata (by decide)
  have whole := left_new (putMetadata record.metadata) small
  rw [← List.append_nil (putMetadata record.metadata)] at whole
  obtain ⟨rest_, metadata, nothing⟩ :=
    getMetadata_forward (metadataFits_of_length fits.metadata) whole
  rw [List.append_nil] at metadata
  refine ⟨_, ?_, blob.2⟩
  simp only [readEntry, sub, id.1, place.1, length.2.1, isLength, blob.1, blob.2.1, metadata,
    require_passed _ trivial, bind, Except.bind]
  rw [require_passed _ (show rest_.ok = true ∧ rest_.remaining = 0 from
    ⟨nothing.1, nothing.remaining⟩), require_passed _ fits.named, require_passed _ indexed]
  rfl

def slotAt (header : Header) (entry : SnapshotRecord × Nat) : RecordSlot :=
  ⟨⟨.mapped (position header (UInt64.ofNat entry.2)), header.stride.toNat⟩, entry.1.metadata⟩

theorem slotOf_slotAt {total : Nat} {entry : SnapshotRecord × Nat}
    (inside : position header (UInt64.ofNat entry.2) + header.stride.toNat ≤ total) :
    slotOf header total ⟨entry.1.id, UInt64.ofNat entry.2, entry.1.metadata⟩ =
      .ok (slotAt header entry) := if_pos inside

def placeEntry (header : Header) (records : OrderedMap RecordId RecordSlot)
    (entry : SnapshotRecord × Nat) : OrderedMap RecordId RecordSlot :=
  records.insert entry.1.id (slotAt header entry)

/-- Induction over the entries still to come; their identifiers are new to what was read. -/
theorem readDirectory_forward (path : Bytes) {total : Nat} (entries : List (SnapshotRecord × Nat))
    {records : OrderedMap RecordId RecordSlot} (fits : ∀ entry ∈ entries, entry.1.Fits)
    (indexed : ∀ entry ∈ entries, UInt64.ofNat entry.2 < header.recordCount)
    (inside : ∀ vectorIndex < header.recordCount,
      position header vectorIndex + header.stride.toNat ≤ total)
    (distinct : (entries.map (fun entry => entry.1.id)).Nodup)
    (fresh : ∀ entry ∈ entries, records.find? entry.1.id = none)
    (left : reader.Left (entries.flatMap putDirectoryEntry ++ rest)) :
    ∃ next, readDirectory path header total entries.length reader records =
        .ok (.ok (entries.foldl (placeEntry header) records, next)) ∧ next.Left rest := by
  induction entries generalizing reader records with
  | nil => exact ⟨reader, rfl, left⟩
  | cons entry tail ih =>
      rw [List.flatMap_cons, List.append_assoc] at left
      have indexedHere := indexed entry List.mem_cons_self
      obtain ⟨next, read, later⟩ :=
        readEntry_forward path (fits entry List.mem_cons_self) indexedHere left
      have slot := @slotOf_slotAt header total entry (inside _ indexedHere)
      have absent := fresh entry List.mem_cons_self
      have missing := (OrderedMap.contains_eq_false_iff _ _).mpr absent
      rw [List.map_cons, List.nodup_cons] at distinct
      have freshTail : ∀ other ∈ tail,
          (records.insert entry.1.id (slotAt header entry)).find? other.1.id = none := by
        intro other member
        have apart : other.1.id ≠ entry.1.id := by
          intro same
          apply distinct.1
          rw [← same]
          exact List.mem_map.mpr ⟨other, member, rfl⟩
        rw [OrderedMap.find_insert_of_ne _ _ apart]
        exact fresh other (List.mem_cons_of_mem entry member)
      obtain ⟨final, rest_, done⟩ := ih
        (fun other member => fits other (List.mem_cons_of_mem entry member))
        (fun other member => indexed other (List.mem_cons_of_mem entry member)) distinct.2
        freshTail later
      refine ⟨final, ?_, done⟩
      simp only [List.length_cons, readDirectory, read, bind, Except.bind, slot, missing,
        Bool.false_eq_true, if_false, OrderedMap.emplace_of_absent _ _ _ absent, List.foldl_cons]
      exact rest_

def recordsAt (header : Header) (records : List SnapshotRecord) :
    OrderedMap RecordId RecordSlot :=
  records.zipIdx.foldl (placeEntry header) OrderedMap.empty

theorem recordsAt_find (header : Header) {records : List SnapshotRecord}
    (distinct : (records.map SnapshotRecord.id).Nodup) (id : RecordId) (slot : RecordSlot) :
    (recordsAt header records).find? id = some slot ↔
      ∃ number record, records[number]? = some record ∧ record.id = id ∧
        slot = slotAt header (record, number) := by
  have keys : (records.zipIdx.map (fun entry => (entry.1.id, slotAt header entry))).map Prod.fst =
      records.map SnapshotRecord.id := by
    calc (records.zipIdx.map (fun entry => (entry.1.id, slotAt header entry))).map Prod.fst
        = (records.zipIdx.map Prod.fst).map SnapshotRecord.id := by
          rw [List.map_map, List.map_map]
          rfl
      _ = records.map SnapshotRecord.id := by rw [List.zipIdx_map_fst]
  have folded : recordsAt header records =
      (records.zipIdx.map (fun entry => (entry.1.id, slotAt header entry))).foldl
        (fun map entry => map.insert entry.1 entry.2) OrderedMap.empty := by
    rw [List.foldl_map]
    rfl
  rw [folded, OrderedMap.foldl_insert_iff _ (by rw [keys]; exact distinct), List.mem_map]
  constructor
  · intro there
    obtain ⟨⟨record, number⟩, member, same⟩ := there
    exact ⟨number, record, List.mem_zipIdx_iff_getElem?.mp member, congrArg Prod.fst same,
      (congrArg Prod.snd same).symm⟩
  · intro there
    obtain ⟨number, record, found, named, isSlot⟩ := there
    exact ⟨(record, number), List.mem_zipIdx_iff_getElem?.mpr found, by rw [named, isSlot]⟩

end Directory

section Vectors

theorem part_of_flatten {width : Nat} (parts : List Bytes)
    (widths : ∀ part ∈ parts, part.length = width) {number : Nat} {part : Bytes}
    (found : parts[number]? = some part) :
    (parts.flatten.drop (number * width)).take width = part := by
  induction parts generalizing number with
  | nil => cases found
  | cons head tail ih =>
      have first := widths head List.mem_cons_self
      rw [List.flatten_cons]
      cases number with
      | zero =>
          cases found
          rw [Nat.zero_mul, List.drop_zero, ← first, List.take_left]
      | succ number =>
          have offset : (number + 1) * width = head.length + number * width := by
            rw [Nat.succ_mul, first, Nat.add_comm]
          rw [offset, List.drop_append, List.drop_of_length_le (Nat.le_add_right _ _),
            List.nil_append, Nat.add_sub_cancel_left]
          exact ih (fun other member => widths other (List.mem_cons_of_mem head member)) found

def vectorsOf (records : List SnapshotRecord) : Bytes :=
  (records.map (fun record => putVector record.vector)).flatten

theorem putComponents_eq {dimensionality : UInt32} {vec : List F32}
    (sized : vec.length = dimensionality.toNat) :
    putComponents dimensionality vec = .ok (putVector vec) := by
  have each : ∀ position ∈ List.range dimensionality.toNat,
      access vec position = .ok (vec.getD position 0) := by
    intro position member
    have inside : position < vec.length := by
      rw [sized]
      exact List.mem_range.mp member
    simp only [access, List.getElem?_eq_getElem inside, List.getD_eq_getElem?_getD,
      Option.getD_some]
  have whole : (List.range dimensionality.toNat).map (fun position => vec.getD position 0) =
      vec := by
    apply List.ext_getElem
    · rw [List.length_map, List.length_range, sized]
    · intro position _ inside
      simp only [List.getElem_map, List.getElem_range, List.getD_eq_getElem?_getD,
        List.getElem?_eq_getElem inside, Option.getD_some]
  simp only [putComponents, mapM_eq _ each, whole]
  rfl

theorem putVectors_eq {dimensionality : UInt32} {records : List SnapshotRecord}
    (sized : ∀ record ∈ records, record.vector.length = dimensionality.toNat) :
    putVectors dimensionality records = .ok (vectorsOf records) := by
  have each : ∀ record ∈ records, putComponents dimensionality record.vector =
      .ok (putVector record.vector) := fun record member => putComponents_eq (sized record member)
  simp only [putVectors, mapM_eq _ each]
  rfl

theorem vectorsOf_at {dimensionality : UInt32} {records : List SnapshotRecord}
    (sized : ∀ record ∈ records, record.vector.length = dimensionality.toNat) {number : Nat}
    {record : SnapshotRecord} (found : records[number]? = some record) :
    ((vectorsOf records).drop (number * (dimensionality.toNat * 4))).take
      (dimensionality.toNat * 4) = putVector record.vector := by
  apply part_of_flatten
  · intro part member
    obtain ⟨other, inside, same⟩ := List.mem_map.mp member
    rw [← same, length_putVector, sized other inside]
  · rw [List.getElem?_map, found, Option.map_some]

theorem length_vectorsOf {dimensionality : UInt32} {records : List SnapshotRecord}
    (sized : ∀ record ∈ records, record.vector.length = dimensionality.toNat) :
    (vectorsOf records).length = records.length * (dimensionality.toNat * 4) := by
  induction records with
  | nil => simp [vectorsOf]
  | cons head tail ih =>
      have first := sized head List.mem_cons_self
      have rest_ := ih (fun record member => sized record (List.mem_cons_of_mem head member))
      rw [vectorsOf, List.map_cons, List.flatten_cons, List.length_append, length_putVector, first,
        List.length_cons, Nat.succ_mul]
      rw [vectorsOf] at rest_
      omega

end Vectors

end PersistenceManager

end VectorVault
