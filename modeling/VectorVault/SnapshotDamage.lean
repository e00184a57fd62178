import VectorVault.CrcWindows
import VectorVault.Engine
import VectorVault.SnapshotImage

/-! Images that were changed or cut short on the way.

A change of a few neighbouring bytes behind the header changes the checksum. A
prefix does not reach as far as the header says, whatever its checksum is. -/

namespace VectorVault.PersistenceManager

open Snapshot ByteReader Crc64

variable {path : Bytes} {data : CollectionSnapshotData} {image : Bytes} {content : FileContent}

theorem loadCollection_refused {engine : Engine} {file : SnapshotFile} {error : Error}
    (refused : readPreamble path file = .error error) :
    engine.loadCollection path file =
      .ok (.error error, { engine with nextTag := engine.nextTag + 1 }) := by
  have loaded : load path engine.allocator file engine.nextTag = .ok (.error error) := by
    rw [load, refused]
    rfl
  rw [Engine.loadCollection, loaded]
  rfl

section Changed

theorem readPreamble_damaged {header : Header} {body : Bytes} (path : Bytes)
    (isFile : content.bytes = fileOf header body) (version : header.formatVersion = formatVersion)
    (damage : crc64Ecma body 0 ≠ header.contentCrc64) :
    readPreamble path (.regular content) = .error (damaged path) := by
  have sized := content.sized
  have long : ¬ content.bytes.length < headerSize := by
    rw [isFile, length_fileOf]
    omega
  have opened : openFile path (.regular content) = .ok content.bytes := by
    rw [openFile, if_neg long]
  have small : (fileOf header body).length < word := by
    rw [← isFile]
    exact lt_trans sized (by decide)
  have parsed : readHeader path content.bytes = .ok header := by
    rw [isFile]
    exact readHeader_fileOf path header body small
  have rest : content.bytes.drop headerSize = body := by
    rw [isFile]
    exact fileOf_drop header body
  simp only [readPreamble, opened, parsed, bind, Except.bind, require, if_pos version, rest,
    if_neg damage]

theorem window_split {bytes other : Bytes} (length : other.length = bytes.length) (offset : Nat)
    (outside : ∀ i, i < offset ∨ offset + 8 ≤ i → other[i]? = bytes[i]?) :
    ∃ front one two back, bytes = front ++ one ++ back ∧ other = front ++ two ++ back ∧
      two.length = one.length ∧ one.length ≤ 8 := by
  have front : other.take offset = bytes.take offset := by
    apply List.ext_getElem?
    intro i
    rw [List.getElem?_take, List.getElem?_take]
    split
    · next inside => exact outside i (Or.inl inside)
    · rfl
  have back : other.drop (offset + 8) = bytes.drop (offset + 8) := by
    apply List.ext_getElem?
    intro i
    rw [List.getElem?_drop, List.getElem?_drop]
    exact outside _ (Or.inr (Nat.le_add_right _ _))
  have parts : ∀ list : Bytes,
      list = list.take offset ++ (list.drop offset).take 8 ++ list.drop (offset + 8) := by
    intro list
    calc list = list.take offset ++ list.drop offset := (List.take_append_drop _ _).symm
      _ = list.take offset ++ ((list.drop offset).take 8 ++ (list.drop offset).drop 8) := by
          rw [List.take_append_drop 8 (list.drop offset)]
      _ = list.take offset ++ (list.drop offset).take 8 ++ list.drop (offset + 8) := by
          rw [List.drop_drop, List.append_assoc]
  refine ⟨bytes.take offset, (bytes.drop offset).take 8, (other.drop offset).take 8,
    bytes.drop (offset + 8), parts bytes, ?_, ?_, List.length_take_le _ _⟩
  · have whole := parts other
    rw [front, back] at whole
    exact whole
  · rw [List.length_take, List.length_take, List.length_drop, List.length_drop, length]

theorem load_damaged (engine : Engine) (path : Bytes) (encoded : encode data = .ok image)
    (length : content.bytes.length = image.length)
    (front : content.bytes.take headerSize = image.take headerSize)
    (changed : content.bytes ≠ image) (offset : Nat) (behind : headerSize ≤ offset)
    (outside : ∀ i, i < offset ∨ offset + 8 ≤ i → content.bytes[i]? = image[i]?) :
    ∃ error, error.category = .corruption ∧ engine.loadCollection path (.regular content) =
      .ok (.error error, { engine with nextTag := engine.nextTag + 1 }) := by
  obtain ⟨vectors, _, isImage⟩ := encode_ok encoded
  obtain ⟨body, isBody⟩ : ∃ body, body = leading data ++ vectors ++ data.indexBlob := ⟨_, rfl⟩
  rw [← isBody] at isImage
  have sameFront : content.bytes.take headerSize = magic ++ (headerOf data vectors).put := by
    rw [front, isImage, fileOf_take]
  have isFile := fileOf_of_take sameFront
  have split : ∀ i, (content.bytes.drop headerSize)[i]? = content.bytes[headerSize + i]? ∧
      body[i]? = image[headerSize + i]? := by
    intro i
    rw [isImage, ← List.getElem?_drop, ← List.getElem?_drop, fileOf_drop]
    exact ⟨rfl, rfl⟩
  have outsideBody : ∀ i, i < offset - headerSize ∨ offset - headerSize + 8 ≤ i →
      (content.bytes.drop headerSize)[i]? = body[i]? := by
    intro i apart
    rw [(split i).1, (split i).2]
    apply outside
    omega
  have bodyLength : (content.bytes.drop headerSize).length = body.length := by
    have whole := length_fileOf (headerOf data vectors) body
    rw [← isImage] at whole
    rw [List.length_drop]
    omega
  obtain ⟨before, one, two, after, isOne, isTwo, lengths, within⟩ :=
    window_split bodyLength _ outsideBody
  have different : one ≠ two := by
    intro same
    apply changed
    rw [isFile, isImage, isOne, isTwo, same]
  have damage : crc64Ecma (content.bytes.drop headerSize) 0 ≠
      (headerOf data vectors).contentCrc64 := by
    have stored : (headerOf data vectors).contentCrc64 = crc64Ecma body 0 := by
      rw [isBody]
      rfl
    rw [stored, isOne, isTwo]
    exact (crc64Ecma_changed 0 lengths within different).symm
  exact ⟨damaged path, rfl,
    loadCollection_refused (readPreamble_damaged path isFile rfl damage)⟩

def oneRecord : CollectionSnapshotData :=
  { config := ⟨[99], 1, .euclidean⟩
    indexType := .none
    records := [⟨[97], [0x3F800000], none⟩]
    indexBlob := [] }

def oneRecordImage : Bytes := (encode oneRecord).toOption.getD []

theorem oneRecord_encoded : encode oneRecord = .ok oneRecordImage :=
  eq_ok_getD (by decide +kernel) []

theorem load_damaged_of_one_byte :
    ∃ error : Error, error.category = .corruption ∧
      (Engine.new 0 (fun _ => 0)).loadCollection [102]
          (.regular ⟨oneRecordImage.set 100 1, by decide +kernel⟩) =
        .ok (.error error, { Engine.new 0 (fun _ => 0) with nextTag := 1 + 1 }) :=
  load_damaged (Engine.new 0 (fun _ => 0)) [102] oneRecord_encoded List.length_set
    (by decide +kernel) (by decide +kernel) 100 (by decide)
    (fun i apart => List.getElem?_set_ne (by omega))

end Changed

section Truncated

/-- A prefix as long as a header is read with the header of the whole, and the
index region ends where the whole did. -/
theorem load_truncated (engine : Engine) (path : Bytes) (encoded : encode data = .ok image)
    (sized : image.length < 2 ^ 63) (cut : content.bytes <+: image)
    (shorter : content.bytes.length < image.length) :
    ∃ error, engine.loadCollection path (.regular content) =
      .ok (.error error, { engine with nextTag := engine.nextTag + 1 }) := by
  cases parsed : readPreamble path (.regular content) with
  | error error => exact ⟨error, loadCollection_refused parsed⟩
  | ok preamble =>
      exfalso
      have accepted := readPreamble_ok parsed
      obtain ⟨_, isContent, isBytes⟩ := accepted.content
      cases isContent
      obtain ⟨vectors, _, isImage⟩ := encode_ok encoded
      have long := accepted.sized
      rw [← isBytes] at long
      have front : content.bytes.take headerSize = magic ++ (headerOf data vectors).put := by
        obtain ⟨tail, whole⟩ := cut
        rw [← List.take_append_of_le_length long, whole, isImage, fileOf_take]
      have isFile := fileOf_of_take front
      have header := accepted.header
      rw [← isBytes, isFile, readHeader_fileOf path _ _
        (by rw [← isFile]; exact lt_trans content.sized (by decide))] at header
      have isHeader := Except.ok.inj header
      have total := length_fileOf (headerOf data vectors)
        (leading data ++ vectors ++ data.indexBlob)
      rw [← isImage] at total
      have region := accepted.indexRegion
      obtain ⟨off, len⟩ := @headerOf_index data vectors
        (by rw [← total]; exact lt_trans sized (by decide))
      rw [← isHeader, off, len, ← isBytes] at region
      rw [List.length_append] at total
      omega

theorem load_truncated_by_one_byte :
    ∃ error : Error, (Engine.new 0 (fun _ => 0)).loadCollection [102]
          (.regular ⟨oneRecordImage.dropLast, by decide +kernel⟩) =
        .ok (.error error, { Engine.new 0 (fun _ => 0) with nextTag := 1 + 1 }) :=
  load_truncated (Engine.new 0 (fun _ => 0)) [102] oneRecord_encoded (by decide +kernel)
    (List.dropLast_prefix _) (by decide +kernel)

end Truncated

end VectorVault.PersistenceManager
