import VectorVault.Persistence

/-! The parts of a snapshot read back: header, metadata, directory entries. -/

namespace VectorVault.Snapshot

open ByteReader

section Header

theorem inverse_header : Inverse Header.get Header.put (fun _ => True) := by
  have versions := (inverse_u32.both inverse_u32).both inverse_u32
  have tags := (((versions.both inverse_u8).both inverse_u8).both inverse_u8).both inverse_u8
  have counts := (tags.both inverse_u64).both inverse_u32
  have regions := ((((counts.both inverse_u64).both inverse_u64).both inverse_u64).both
    inverse_u64).both inverse_u64
  apply regions.record
    (fun parts => Header.mk parts.1.1.1.1.1.1.1.1.1.1.1.1.1 parts.1.1.1.1.1.1.1.1.1.1.1.1.2
      parts.1.1.1.1.1.1.1.1.1.1.1.2 parts.1.1.1.1.1.1.1.1.1.1.2 parts.1.1.1.1.1.1.1.1.1.2
      parts.1.1.1.1.1.1.1.1.2 parts.1.1.1.1.1.1.1.2 parts.1.1.1.1.1.1.2 parts.1.1.1.1.1.2
      parts.1.1.1.1.2 parts.1.1.1.2 parts.1.1.2 parts.1.2 parts.2)
    (fun header => (((((((((((((header.formatVersion, header.flags), header.dimensionality),
      header.metric), header.indexType), header.reserved0), header.reserved1),
      header.recordCount), header.nameLength), header.vectorRegionOff), header.vectorRegionLen),
      header.indexRegionOff), header.indexRegionLen), header.contentCrc64))
  · intro reader
    unfold Header.get
    dsimp only [getBoth]
  · intro header
    simp only [Header.put, putBoth]
  · exact fun _ => rfl
  · exact fun _ => rfl

theorem length_header (header : Header) : header.put.length = headerSize - magic.length := by
  simp only [Header.put, List.length_append, length_putU32, length_putU8, length_putU64]
  rfl

end Header

section Metadata

theorem getMetadataValue_forward {value : MetadataValue} {reader : ByteReader} {rest : Bytes}
    (fits : ∀ content, value = .string content → content.length < 2 ^ 32)
    (left : reader.Left (putMetadataValue value ++ rest)) :
    reader.getU8.2.ok = true ∧
      ∃ next, getMetadataValue reader.getU8.1 reader.getU8.2 = some (value, next) ∧
        next.Left rest := by
  cases value with
  | string content =>
      rw [putMetadataValue, List.append_assoc] at left
      have tag := inverse_u8.forward reader 0 _ trivial left
      have body := inverse_string.forward _ content rest (fits content rfl) tag.2
      refine ⟨tag.2.1, _, ?_, body.2⟩
      simp only [getMetadataValue, tag.1, if_true, body.1, body.2.1, Bool.true_eq_false, if_false]
  | int64 number =>
      rw [putMetadataValue, List.append_assoc] at left
      have tag := inverse_u8.forward reader 1 _ trivial left
      have body := inverse_i64.forward _ number rest trivial tag.2
      refine ⟨tag.2.1, _, ?_, body.2⟩
      simp only [getMetadataValue, tag.1, body.1, body.2.1, Bool.true_eq_false, if_false]
      rfl
  | double number =>
      rw [putMetadataValue, List.append_assoc] at left
      have tag := inverse_u8.forward reader 2 _ trivial left
      have body := inverse_u64.forward _ number rest trivial tag.2
      refine ⟨tag.2.1, _, ?_, body.2⟩
      simp only [getMetadataValue, tag.1, getF64, body.1, body.2.1, Bool.true_eq_false, if_false]
      rfl
  | bool flag =>
      rw [putMetadataValue, List.append_assoc] at left
      have tag := inverse_u8.forward reader 3 _ trivial left
      have body := inverse_u8.forward _ (if flag then 1 else 0) rest trivial tag.2
      refine ⟨tag.2.1, _, ?_, body.2⟩
      simp only [getMetadataValue, tag.1, body.1, body.2.1, Bool.true_eq_false, if_false]
      cases flag <;> rfl

def EntryFits (entry : Bytes × MetadataValue) : Prop :=
  entry.1.length < 2 ^ 32 ∧ ∀ content, entry.2 = .string content → content.length < 2 ^ 32

/-- Induction over the entries still to come; their keys are new to what was read. -/
theorem getMetadataEntries_forward (entries : List (Bytes × MetadataValue)) {metadata : Metadata}
    {reader : ByteReader} {rest : Bytes} (fits : ∀ entry ∈ entries, EntryFits entry)
    (distinct : (entries.map Prod.fst).Nodup)
    (fresh : ∀ entry ∈ entries, metadata.find? entry.1 = none)
    (left : reader.Left (entries.flatMap putMetadataEntry ++ rest)) :
    ∃ next, getMetadataEntries entries.length metadata reader =
        some (entries.foldl (fun map entry => map.insert entry.1 entry.2) metadata, next) ∧
      next.Left rest := by
  induction entries generalizing metadata reader with
  | nil => exact ⟨reader, rfl, left⟩
  | cons entry tail ih =>
      have fitsHere := fits entry List.mem_cons_self
      rw [List.flatMap_cons, putMetadataEntry, List.append_assoc, List.append_assoc] at left
      have key := inverse_string.forward reader entry.1 _ fitsHere.1 left
      obtain ⟨tagged, next, value, after⟩ := getMetadataValue_forward fitsHere.2 key.2
      have absent := fresh entry List.mem_cons_self
      rw [List.map_cons, List.nodup_cons] at distinct
      have freshTail : ∀ other ∈ tail, (metadata.insert entry.1 entry.2).find? other.1 = none := by
        intro other member
        rw [OrderedMap.find_insert_of_ne]
        · exact fresh other (List.mem_cons_of_mem entry member)
        · intro same
          apply distinct.1
          rw [← same]
          exact List.mem_map_of_mem member
      obtain ⟨final, read, done⟩ := ih (fun other member => fits other
        (List.mem_cons_of_mem entry member)) distinct.2 freshTail after
      refine ⟨final, ?_, done⟩
      simp only [List.length_cons, getMetadataEntries, key.1, tagged, Bool.true_eq_false, if_false,
        value, OrderedMap.emplace_of_absent _ _ _ absent, List.foldl_cons, bind, Option.bind]
      exact read

/-- The number and the strings of a record's metadata fit their fields. -/
def MetadataFits (metadata : Option Metadata) : Prop :=
  ∀ held, metadata = some held → held.size < 2 ^ 32 ∧ ∀ entry ∈ held.entries, EntryFits entry

theorem getMetadata_forward {metadata : Option Metadata} {reader : ByteReader} {rest : Bytes}
    (fits : MetadataFits metadata) (left : reader.Left (putMetadata metadata ++ rest)) :
    ∃ next, getMetadata reader = some (metadata, next) ∧ next.Left rest := by
  cases metadata with
  | none =>
      have present := inverse_u8.forward reader 0 rest trivial left
      refine ⟨_, ?_, present.2⟩
      simp only [getMetadata, present.1, present.2.1, Bool.true_eq_false, if_false, if_true]
  | some held =>
      obtain ⟨size, entries⟩ := fits held rfl
      rw [putMetadata, List.append_assoc, List.append_assoc] at left
      have present := inverse_u8.forward reader 1 _ trivial left
      have count := inverse_u32.forward _ (UInt32.ofNat held.size) _ trivial present.2
      have isSize : (getU32 (getU8 reader).2).1.toNat = held.entries.length := by
        rw [count.1]
        exact UInt32.toNat_ofNat_of_lt' size
      obtain ⟨next, read, after⟩ := getMetadataEntries_forward held.entries entries
        held.nodup_keys (fun _ _ => OrderedMap.find_empty _) count.2
      refine ⟨next, ?_, after⟩
      rw [OrderedMap.foldl_insert_entries] at read
      have one : ¬ (1 : UInt8) = 0 := by decide
      simp only [getMetadata, present.1, present.2.1, Bool.true_eq_false, if_false, one, count.2.1,
        isSize, read, Option.map_some]

theorem metadataFits_of_length {metadata : Option Metadata}
    (small : (putMetadata metadata).length < 2 ^ 32) : MetadataFits metadata := by
  intro held isHeld
  rw [isHeld, putMetadata, List.length_append, List.length_append] at small
  have entryLength : ∀ entry : Bytes × MetadataValue,
      1 ≤ (putMetadataEntry entry).length := by
    intro entry
    rw [putMetadataEntry, putString, List.length_append, List.length_append, length_putU32]
    omega
  have total : ∀ entries : List (Bytes × MetadataValue),
      entries.length ≤ (entries.flatMap putMetadataEntry).length := by
    intro entries
    induction entries with
    | nil => exact Nat.le_refl 0
    | cons entry tail ih =>
        have here := entryLength entry
        rw [List.flatMap_cons, List.length_append, List.length_cons]
        omega
  have bound : ∀ entry ∈ held.entries,
      (putMetadataEntry entry).length ≤ (held.entries.flatMap putMetadataEntry).length := by
    intro entry member
    obtain ⟨front, back, split⟩ := List.append_of_mem member
    rw [split, List.flatMap_append, List.flatMap_cons, List.length_append, List.length_append]
    omega
  have count := total held.entries
  refine ⟨by rw [OrderedMap.size]; omega, ?_⟩
  intro entry member
  have part := bound entry member
  rw [putMetadataEntry, putString, List.length_append, List.length_append] at part
  refine ⟨by omega, ?_⟩
  intro content isString
  rw [isString, putMetadataValue, putString, List.length_append, List.length_append] at part
  omega

end Metadata

end VectorVault.Snapshot
