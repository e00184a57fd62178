import VectorVault.PersistenceLoad
import VectorVault.SnapshotCodec

/-! The image of a collection as a file.

An image is a magic, a header and a body. A file that begins with the magic and
a header is read as having that header, whatever the body is. -/

namespace VectorVault.PersistenceManager

open Snapshot ByteReader Crc64

section Parts

variable {data : CollectionSnapshotData} {image : Bytes}

def fileOf (header : Header) (body : Bytes) : Bytes := magic ++ header.put ++ body

theorem length_front (header : Header) : (magic ++ header.put).length = headerSize := by
  rw [List.length_append, length_header]
  decide

theorem length_fileOf (header : Header) (body : Bytes) :
    (fileOf header body).length = headerSize + body.length := by
  rw [fileOf, List.length_append, length_front]

theorem fileOf_drop (header : Header) (body : Bytes) :
    (fileOf header body).drop headerSize = body := by
  rw [fileOf, ← length_front header, List.drop_left]

theorem encode_ok (encoded : encode data = .ok image) :
    ∃ vectors, putVectors data.config.dimensionality data.records = .ok vectors ∧
      image = fileOf (headerOf data vectors) (leading data ++ vectors ++ data.indexBlob) := by
  obtain ⟨vectors, put, result⟩ := bind_ok encoded
  refine ⟨vectors, put, ?_⟩
  rw [← Except.ok.inj result, fileOf]
  simp only [List.append_assoc]

theorem fileOf_of_take {bytes : Bytes} {header : Header}
    (front : bytes.take headerSize = magic ++ header.put) :
    bytes = fileOf header (bytes.drop headerSize) := by
  rw [fileOf, ← front, List.take_append_drop]

theorem fileOf_take (header : Header) (body : Bytes) :
    (fileOf header body).take headerSize = magic ++ header.put := by
  rw [fileOf, ← length_front header, List.take_left]

theorem readHeader_fileOf (path : Bytes) (header : Header) (body : Bytes)
    (small : (fileOf header body).length < word) :
    readHeader path (fileOf header body) = .ok header := by
  have left := left_new (fileOf header body) small
  have found := @getRaw_forward (new (fileOf header body)) magic (header.put ++ body)
    (by rw [← List.append_assoc]; exact left)
  have fields := inverse_header.forward _ header body trivial found.2
  rw [readHeader]
  simp only [found.1, found.2.1, Bool.true_eq_false, ne_eq, not_true_eq_false, or_self, if_false,
    fields.1, fields.2.1]

end Parts

section Offsets

variable {data : CollectionSnapshotData} {vectors : Bytes}

theorem headerOf_index
    (small : headerSize + (leading data ++ vectors ++ data.indexBlob).length < word) :
    (headerOf data vectors).indexRegionOff.toNat = headerSize + (leading data ++ vectors).length ∧
      (headerOf data vectors).indexRegionLen.toNat = data.indexBlob.length := by
  rw [List.length_append] at small
  constructor
  · exact UInt64.toNat_ofNat_of_lt' (show _ < 2 ^ 64 by simp only [word] at small; omega)
  · exact UInt64.toNat_ofNat_of_lt' (show _ < 2 ^ 64 by simp only [word] at small; omega)

end Offsets

end VectorVault.PersistenceManager
