import VectorVault.PersistenceLoad

/-! Where the reads of a load lie.

A reader of `load` is over a window of the mapped file. Whatever the bytes of a
field ask for, a read takes them from the window or fails. -/

namespace VectorVault

open Snapshot ByteReader

namespace Snapshot.ByteReader

section Closed

/-- Kept by every read of a length that a 32-bit field can ask for. -/
def ReadClosed (holds : ByteReader → Prop) : Prop :=
  ∀ reader length, length < 2 ^ 32 → holds reader → holds (reader.getRaw length).2

variable {holds : ByteReader → Prop} {reader after : ByteReader}

theorem ReadClosed.u8 (closed : ReadClosed holds) (before : holds reader) :
    holds reader.getU8.2 := closed reader 1 (by decide) before

theorem ReadClosed.u32 (closed : ReadClosed holds) (before : holds reader) :
    holds reader.getU32.2 := closed reader 4 (by decide) before

theorem ReadClosed.u64 (closed : ReadClosed holds) (before : holds reader) :
    holds reader.getU64.2 := closed reader 8 (by decide) before

theorem ReadClosed.string (closed : ReadClosed holds) (before : holds reader) :
    holds reader.getString.2 := by
  apply closed
  · exact reader.getU32.1.toNat_lt
  · exact closed.u32 before

theorem ReadClosed.sub (closed : ReadClosed holds) (length : UInt32) (before : holds reader) :
    holds (reader.sub length.toNat).2 := closed reader length.toNat length.toNat_lt before

theorem ReadClosed.header (closed : ReadClosed holds) (before : holds reader) :
    holds (Header.get reader).2 := by
  have versions := closed.u32 (closed.u32 (closed.u32 before))
  have tags := closed.u8 (closed.u8 (closed.u8 (closed.u8 versions)))
  have counts := closed.u32 (closed.u64 tags)
  have regions := closed.u64 (closed.u64 (closed.u64 (closed.u64 (closed.u64 counts))))
  unfold Header.get
  dsimp only
  exact regions

theorem unfailed_some {A : Type} {value : A} {item : A × ByteReader}
    (read : (if reader.ok = false then none else some item) = some (value, after)) :
    after = item.2 := by
  split at read
  · cases read
  · rw [Option.some.inj read]

theorem ReadClosed.metadataValue (closed : ReadClosed holds) {tag : UInt8} {value : MetadataValue}
    (read : getMetadataValue tag reader = some (value, after)) (before : holds reader) :
    holds after := by
  unfold getMetadataValue at read
  split at read
  · rw [unfailed_some read]
    exact closed.string before
  · split at read
    · rw [unfailed_some read]
      exact closed.u64 before
    · split at read
      · rw [unfailed_some read]
        exact closed.u64 before
      · split at read
        · rw [unfailed_some read]
          exact closed.u8 before
        · cases read

theorem ReadClosed.metadataEntries (closed : ReadClosed holds) {count : Nat}
    {metadata final : Metadata}
    (read : getMetadataEntries count metadata reader = some (final, after))
    (before : holds reader) : holds after := by
  induction count generalizing metadata reader with
  | zero =>
      cases read
      exact before
  | succ count ih =>
      rw [getMetadataEntries] at read
      simp only at read
      split at read
      · cases read
      · obtain ⟨⟨value, next⟩, isValue, rest⟩ := Option.bind_eq_some_iff.mp read
        exact ih rest (closed.metadataValue isValue (closed.u8 (closed.string before)))

theorem ReadClosed.metadata (closed : ReadClosed holds) {metadata : Option Metadata}
    (read : getMetadata reader = some (metadata, after)) (before : holds reader) :
    holds after := by
  simp only [getMetadata] at read
  split at read
  · cases read
  · split at read
    · cases read
      exact closed.u8 before
    · split at read
      · cases read
      · obtain ⟨⟨entries, next⟩, isEntries, same⟩ := Option.map_eq_some_iff.mp read
        cases same
        exact closed.metadataEntries isEntries (closed.u32 (closed.u8 before))

theorem ReadClosed.name (closed : ReadClosed holds) {path name : Bytes} {header : Header}
    (read : PersistenceManager.readName path header reader = .ok (name, after))
    (before : holds reader) : holds after := by
  obtain ⟨_, _, read⟩ := bind_ok read
  obtain ⟨_, _, read⟩ := bind_ok read
  cases read
  exact closed reader header.nameLength.toNat header.nameLength.toNat_lt before

theorem ReadClosed.entry (closed : ReadClosed holds) {path : Bytes} {header : Header}
    {entry : PersistenceManager.DirectoryEntry}
    (read : PersistenceManager.readEntry path header reader = .ok (entry, after))
    (before : holds reader) : holds after := by
  obtain ⟨_, _, read⟩ := bind_ok read
  obtain ⟨_, _, read⟩ := bind_ok read
  split at read
  · cases read
  · obtain ⟨_, _, read⟩ := bind_ok read
    obtain ⟨_, _, read⟩ := bind_ok read
    obtain ⟨_, _, read⟩ := bind_ok read
    cases read
    exact closed.sub _ (closed.u32 (closed.u64 (closed.string before)))

theorem ReadClosed.directory (closed : ReadClosed holds) {path : Bytes} {header : Header}
    {total remaining : Nat} {records final : OrderedMap RecordId RecordSlot}
    (read : PersistenceManager.readDirectory path header total remaining reader records =
      .ok (.ok (final, after)))
    (before : holds reader) : holds after := by
  induction remaining generalizing reader records with
  | zero =>
      cases read
      exact before
  | succ remaining ih =>
      rw [PersistenceManager.readDirectory] at read
      cases entryRead : PersistenceManager.readEntry path header reader with
      | error error =>
          rw [entryRead] at read
          cases read
      | ok result =>
          rw [entryRead] at read
          obtain ⟨slot, _, read⟩ := bind_ok read
          split at read
          · cases read
          · exact ih read (closed.entry entryRead before)

theorem ReadClosed.neighbors (closed : ReadClosed holds) {count : UInt32} {degree : Nat}
    {neighbors : List Nat} (read : HnswIndex.readNeighbors count degree reader =
      some (neighbors, after))
    (before : holds reader) : holds after := by
  induction degree generalizing reader neighbors with
  | zero =>
      cases read
      exact before
  | succ degree ih =>
      rw [HnswIndex.readNeighbors] at read
      simp only at read
      split at read
      · cases read
      · obtain ⟨⟨rest, next⟩, later, same⟩ := Option.bind_eq_some_iff.mp read
        cases same
        exact ih later (closed.u32 before)

theorem ReadClosed.layers (closed : ReadClosed holds) {count : UInt32} {layers : Nat}
    {lists : List (List Nat)} (read : HnswIndex.readLayers count layers reader = some (lists, after))
    (before : holds reader) : holds after := by
  induction layers generalizing reader lists with
  | zero =>
      cases read
      exact before
  | succ layers ih =>
      rw [HnswIndex.readLayers] at read
      simp only at read
      split at read
      · cases read
      · obtain ⟨⟨neighbors, next⟩, first, read⟩ := Option.bind_eq_some_iff.mp read
        obtain ⟨⟨rest, final⟩, later, same⟩ := Option.bind_eq_some_iff.mp read
        cases same
        exact ih later (closed.neighbors first (closed.u32 before))

theorem ReadClosed.nodes (closed : ReadClosed holds) {vectorFor : RecordId → Option (List F32)}
    {count : UInt32} {remaining c : Nat} {index final : HnswIndex}
    (read : HnswIndex.readNodes vectorFor count remaining c index reader = some (final, after))
    (before : holds reader) : holds after := by
  induction remaining generalizing reader c index with
  | zero =>
      cases read
      exact before
  | succ remaining ih =>
      rw [HnswIndex.readNodes] at read
      obtain ⟨⟨node, next⟩, isNode, read⟩ := Option.bind_eq_some_iff.mp read
      simp only at read
      split at read
      · cases read
      · apply ih read
        unfold HnswIndex.readNode at isNode
        simp only at isNode
        split at isNode
        · cases isNode
        · obtain ⟨components, _, isNode⟩ := Option.bind_eq_some_iff.mp isNode
          obtain ⟨⟨lists, later⟩, isLayers, same⟩ := Option.bind_eq_some_iff.mp isNode
          cases same
          exact closed.layers isLayers (closed.u32 (closed.string before))

/-- The parsers of a snapshot go from reader to reader by such reads. -/
structure Parsed (holds : ByteReader → Prop) : Prop where
  header : ∀ reader, holds reader → holds (Header.get reader).2
  name : ∀ path header reader name after,
    PersistenceManager.readName path header reader = .ok (name, after) → holds reader → holds after
  entry : ∀ path header reader entry after,
    PersistenceManager.readEntry path header reader = .ok (entry, after) → holds reader → holds after
  metadata : ∀ reader metadata after,
    getMetadata reader = some (metadata, after) → holds reader → holds after
  directory : ∀ path header total remaining reader records final after,
    PersistenceManager.readDirectory path header total remaining reader records =
      .ok (.ok (final, after)) → holds reader → holds after
  nodes : ∀ vectorFor count remaining c index reader final after,
    HnswIndex.readNodes vectorFor count remaining c index reader = some (final, after) →
      holds reader → holds after

theorem ReadClosed.parsed (closed : ReadClosed holds) : Parsed holds where
  header _ before := closed.header before
  name _ _ _ _ _ read before := closed.name read before
  entry _ _ _ _ _ read before := closed.entry read before
  metadata _ _ _ read before := closed.metadata read before
  directory _ _ _ _ _ _ _ _ read before := closed.directory read before
  nodes _ _ _ _ _ _ _ _ read before := closed.nodes read before

end Closed

section Window

structure Inside (file : Bytes) (base : Nat) (reader : ByteReader) : Prop where
  window : ∃ length, reader.data = (file.drop base).take length
  fits : base + reader.data.length ≤ file.length
  position : reader.pos ≤ reader.data.length

variable {file : Bytes} {base length : Nat} {reader : ByteReader}

theorem inside_new (fits : base + length ≤ file.length) :
    (new ((file.drop base).take length)).Inside file base := by
  refine ⟨⟨length, rfl⟩, ?_, Nat.zero_le _⟩
  rw [new, List.length_take, List.length_drop]
  omega

theorem getRaw_cases (noWrap : reader.pos + length < word) :
    ((reader.getRaw length).2.ok = false ∧ (reader.getRaw length).1 = [] ∧
        (reader.getRaw length).2.pos = reader.pos) ∨
      ((reader.getRaw length).2.ok = true ∧ reader.pos + length ≤ reader.data.length ∧
        (reader.getRaw length).1 = (reader.data.drop reader.pos).take length ∧
        (reader.getRaw length).2.pos = reader.pos + length) := by
  rw [ByteReader.getRaw, ensure]
  by_cases failed : reader.ok = false
  · rw [if_pos failed]
    exact Or.inl ⟨failed, rfl, rfl⟩
  · rw [if_neg failed, Nat.mod_eq_of_lt noWrap]
    by_cases beyond : reader.pos + length > reader.data.length ∨ reader.pos + length < reader.pos
    · rw [if_pos beyond]
      exact Or.inl ⟨rfl, rfl, rfl⟩
    · rw [if_neg beyond]
      exact Or.inr ⟨Bool.eq_true_of_not_eq_false failed, by omega, rfl, rfl⟩

theorem Inside.noWrap (inside : reader.Inside file base) (small : file.length < 2 ^ 32)
    (field : length < 2 ^ 32) : reader.pos + length < word := by
  have within := inside.fits
  have position := inside.position
  simp only [word]
  omega

/-- A read fails and delivers nothing, or delivers the bytes at its position in
the file; its end is computed without a wrap. -/
def ReadInside (file : Bytes) (base : Nat) (reader : ByteReader) (length : Nat) : Prop :=
  reader.pos + length < word ∧
    (((reader.getRaw length).2.ok = false ∧ (reader.getRaw length).1 = []) ∨
      ((reader.getRaw length).2.ok = true ∧ base + reader.pos + length ≤ file.length ∧
        (reader.getRaw length).1 = (file.drop (base + reader.pos)).take length))

theorem Inside.readInside (inside : reader.Inside file base) (small : file.length < 2 ^ 32)
    (field : length < 2 ^ 32) : ReadInside file base reader length := by
  have noWrap := inside.noWrap small field
  refine ⟨noWrap, ?_⟩
  rcases getRaw_cases noWrap with ⟨failed, nothing, _⟩ | ⟨ok, enough, bytes, _⟩
  · exact Or.inl ⟨failed, nothing⟩
  · have within := inside.fits
    have taken : (reader.data.drop reader.pos).take length =
        (file.drop (base + reader.pos)).take length := by
      obtain ⟨size, window⟩ := inside.window
      have most : reader.data.length ≤ size := by
        rw [window]
        exact List.length_take_le _ _
      rw [window, List.drop_take, List.take_take, List.drop_drop]
      congr 1
      omega
    exact Or.inr ⟨ok, by omega, bytes.trans taken⟩

theorem Inside.next (inside : reader.Inside file base) (small : file.length < 2 ^ 32)
    (field : length < 2 ^ 32) : (reader.getRaw length).2.Inside file base := by
  have same := getRaw_data reader length
  have position := inside.position
  refine ⟨by rw [same]; exact inside.window, by rw [same]; exact inside.fits, ?_⟩
  rw [same]
  rcases getRaw_cases (inside.noWrap small field) with ⟨_, _, stays⟩ | ⟨_, enough, _, moves⟩
  · rw [stays]
    exact position
  · rw [moves]
    exact enough

theorem Inside.sub (inside : reader.Inside file base) (small : file.length < 2 ^ 32)
    (field : length < 2 ^ 32) : (reader.sub length).1.Inside file (base + reader.pos) := by
  have within := inside.fits
  have position := inside.position
  rw [ByteReader.sub]
  simp only
  rcases (inside.readInside small field).2 with ⟨_, nothing⟩ | ⟨_, enough, bytes⟩
  · rw [nothing, ← List.take_zero (l := file.drop (base + reader.pos))]
    exact inside_new (by omega)
  · rw [bytes]
    exact inside_new enough

end Window

end Snapshot.ByteReader

namespace PersistenceManager

/-- The readers of a load with their places in the file: over the whole file,
over what follows the header, over the index region of an accepted header, over
the blobs of the directory, and what reading makes of these. -/
inductive Cursor (path : Bytes) (content : FileContent) : Nat → ByteReader → Prop where
  | file : Cursor path content 0 (new content.bytes)
  | body (sized : headerSize ≤ content.bytes.length) :
      Cursor path content headerSize (new (content.bytes.drop headerSize))
  | index {preamble : Preamble} (parsed : readPreamble path (.regular content) = .ok preamble) :
      Cursor path content preamble.header.indexRegionOff.toNat (new preamble.indexRegion)
  | read {base length : Nat} {reader : ByteReader} (field : length < 2 ^ 32)
      (cursor : Cursor path content base reader) : Cursor path content base (reader.getRaw length).2
  | blob {base length : Nat} {reader : ByteReader} (field : length < 2 ^ 32)
      (cursor : Cursor path content base reader) :
      Cursor path content (base + reader.pos) (reader.sub length).1

variable {path : Bytes} {content : FileContent} {base : Nat} {reader : ByteReader}

theorem Cursor.inside (small : content.bytes.length < 2 ^ 32)
    (cursor : Cursor path content base reader) : reader.Inside content.bytes base := by
  induction cursor with
  | file =>
      have whole := @inside_new content.bytes 0 content.bytes.length (by omega)
      rw [List.drop_zero, List.take_length] at whole
      exact whole
  | body sized =>
      have rest := @inside_new content.bytes headerSize (content.bytes.length - headerSize)
        (by omega)
      rw [← List.length_drop, List.take_length] at rest
      exact rest
  | index parsed =>
      have accepted := readPreamble_ok parsed
      obtain ⟨_, isFile, isContent⟩ := accepted.content
      cases isFile
      have region := accepted.indexRegion
      rw [Preamble.indexRegion, isContent]
      exact inside_new (by omega)
  | read field _ ih => exact ih.next small field
  | blob field _ ih => exact ih.sub small field

theorem cursor_closed (path : Bytes) (content : FileContent) (base : Nat) :
    ReadClosed (Cursor path content base) := fun _ _ field before => .read field before

theorem Preamble.Accepted.cursor {preamble : Preamble}
    (accepted : preamble.Accepted path (.regular content)) :
    Cursor path content headerSize preamble.reader := by
  obtain ⟨_, isFile, isContent⟩ := accepted.content
  cases isFile
  have body : Cursor path content headerSize (new (content.bytes.drop headerSize)) :=
    .body (by rw [isContent]; exact accepted.sized)
  rw [isContent] at body
  exact (cursor_closed path content headerSize).name accepted.named body

end PersistenceManager

end VectorVault
