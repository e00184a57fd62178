import VectorVault.HeaderBytes
import VectorVault.LoadSafety

/-! Where the regions of an accepted file lie.

The parse of the directory stops before the vector region. Whether the vector
region is aligned, and where the index region is, no check looks at. -/

namespace VectorVault.PersistenceManager

open Snapshot Crc64 LittleEndian ByteReader

section Extent

def entryLength (bytes : Bytes) : Nat :=
  let idLength := combine (bytes.take 4)
  let metaLength := combine ((bytes.drop (4 + idLength + 8)).take 4)
  4 + idLength + 8 + 4 + metaLength

def directoryLength : Nat → Bytes → Nat
  | 0, _ => 0
  | count + 1, bytes =>
      entryLength bytes + directoryLength count (bytes.drop (entryLength bytes))

def directoryEnd (bytes : Bytes) (header : Header) : Nat :=
  let nameEnd := headerSize + header.nameLength.toNat
  nameEnd + directoryLength header.recordCount.toNat (bytes.drop nameEnd)

/-- The positions of the header, the name with the directory, the vectors and,
when there is one, the index. -/
def regions (bytes : Bytes) (header : Header) : List (Set Nat) :=
  [Set.Ico 0 headerSize, Set.Ico headerSize (directoryEnd bytes header),
    Set.Ico header.vectorRegionOff.toNat
      (header.vectorRegionOff.toNat + header.vectorRegionLen.toNat)] ++
    if header.indexType = IndexType.none.toByte then []
    else [Set.Ico header.indexRegionOff.toNat
      (header.indexRegionOff.toNat + header.indexRegionLen.toNat)]

def Separate (one other : Set Nat) : Prop := ∀ place ∈ one, place ∉ other

structure WellPlaced (bytes : Bytes) (header : Header) : Prop where
  separate : (regions bytes header).Pairwise Separate
  aligned : alignment ∣ header.vectorRegionOff.toNat

/-- An index region behind the directory, and before or behind the vectors. -/
def IndexApart (bytes : Bytes) (header : Header) : Prop :=
  header.indexType ≠ IndexType.none.toByte →
    directoryEnd bytes header ≤ header.indexRegionOff.toNat ∧
      (header.vectorRegionLen = 0 ∨
        header.vectorRegionOff.toNat + header.vectorRegionLen.toNat ≤
          header.indexRegionOff.toNat ∨
        header.indexRegionOff.toNat + header.indexRegionLen.toNat ≤
          header.vectorRegionOff.toNat)

theorem separate_iff (start stop other otherStop : Nat) :
    Separate (Set.Ico start stop) (Set.Ico other otherStop) ↔
      (stop ≤ start ∨ otherStop ≤ other) ∨ stop ≤ other ∨ otherStop ≤ start := by
  constructor
  · intro separate
    by_contra overlap
    have common : max start other ∈ Set.Ico start stop := by
      rw [Set.mem_Ico]
      omega
    apply separate (max start other) common
    rw [Set.mem_Ico]
    omega
  · intro apart place inside insideToo
    rw [Set.mem_Ico] at inside insideToo
    omega

end Extent

section Advance

variable {path : Bytes} {header : Header} {reader after : ByteReader} {bytes : Bytes}

theorem take_putU32 (value : UInt32) (rest : Bytes) :
    combine ((putU32 value ++ rest).take 4) = value.toNat := by
  rw [List.take_left' (length_putU32 value), putU32]
  exact combine_split 4 value.toNat value.toNat_lt

theorem entryLength_put {id blob : Bytes} {vectorIndex : UInt64} {length : UInt32}
    (fits : id.length < 2 ^ 32) (sized : blob.length = length.toNat) (rest : Bytes) :
    entryLength (putString id ++ (putU64 vectorIndex ++ (putU32 length ++ (blob ++ rest)))) =
        4 + id.length + 8 + 4 + blob.length ∧
      (putString id ++ (putU64 vectorIndex ++ (putU32 length ++ (blob ++ rest)))).drop
        (4 + id.length + 8 + 4 + blob.length) = rest := by
  have idLength : combine ((putString id ++
      (putU64 vectorIndex ++ (putU32 length ++ (blob ++ rest)))).take 4) = id.length := by
    rw [putString, List.append_assoc, take_putU32]
    exact UInt32.toNat_ofNat_of_lt' fits
  have front : (putString id ++ putU64 vectorIndex).length = 4 + id.length + 8 := by
    rw [putString, List.length_append, List.length_append, length_putU32, length_putU64]
  have behind : (putString id ++ (putU64 vectorIndex ++ (putU32 length ++ (blob ++ rest)))).drop
      (4 + id.length + 8) = putU32 length ++ (blob ++ rest) := by
    rw [← List.append_assoc]
    exact List.drop_left' front
  constructor
  · rw [entryLength, idLength, behind, take_putU32, sized]
  · rw [Nat.add_assoc (4 + id.length + 8), ← List.drop_drop, behind, ← List.append_assoc]
    exact List.drop_left' (by rw [List.length_append, length_putU32])

theorem readEntry_advances {entry : DirectoryEntry} (left : reader.Left bytes)
    (parsed : readEntry path header reader = .ok (entry, after)) :
    after.Left (bytes.drop (entryLength bytes)) ∧ entryLength bytes ≤ bytes.length := by
  obtain ⟨_, fields, parsed⟩ := bind_ok parsed
  obtain ⟨_, whole, parsed⟩ := bind_ok parsed
  have fieldsOk := require_ok fields
  have wholeOk := require_ok whole
  have isAfter : after = (reader.getString.2.getU64.2.getU32.2.sub
      reader.getString.2.getU64.2.getU32.1.toNat).2 := by
    split at parsed
    · cases parsed
    · obtain ⟨_, _, parsed⟩ := bind_ok parsed
      obtain ⟨_, _, parsed⟩ := bind_ok parsed
      obtain ⟨_, _, parsed⟩ := bind_ok parsed
      cases parsed
      rfl
  have indexOk := inverse_u32.sticky _ fieldsOk
  have idOk := inverse_u64.sticky _ indexOk
  rcases inverse_string.backward _ _ left idOk with ⟨fits, second, isId, left⟩
  rcases inverse_u64.backward _ _ left indexOk with ⟨_, third, isIndex, left⟩
  rcases inverse_u32.backward _ _ left fieldsOk with ⟨_, fourth, isLength, left⟩
  rcases getRaw_backward left (lt_trans (UInt32.toNat_lt _) (by decide)) wholeOk with
    ⟨blob, rest, isBlob, sized, _, left⟩
  have shape : bytes = putString reader.getString.1 ++ (putU64 reader.getString.2.getU64.1 ++
      (putU32 reader.getString.2.getU64.2.getU32.1 ++ (blob ++ rest))) := by
    rw [isId, isIndex, isLength, isBlob]
  rcases @entryLength_put reader.getString.1 blob reader.getString.2.getU64.1
    reader.getString.2.getU64.2.getU32.1 fits sized rest with ⟨length, behind⟩
  rw [isAfter, shape, length, behind]
  refine ⟨left, ?_⟩
  simp only [putString, List.length_append, length_putU32, length_putU64]
  omega

theorem readDirectory_advances {total remaining : Nat}
    {records final : OrderedMap RecordId RecordSlot} (left : reader.Left bytes)
    (parsed : readDirectory path header total remaining reader records = .ok (.ok (final, after))) :
    after.Left (bytes.drop (directoryLength remaining bytes)) ∧
      directoryLength remaining bytes ≤ bytes.length := by
  induction remaining generalizing reader records bytes with
  | zero =>
      cases parsed
      exact ⟨left, Nat.zero_le _⟩
  | succ remaining ih =>
      rw [readDirectory] at parsed
      cases entryRead : readEntry path header reader with
      | error error =>
          rw [entryRead] at parsed
          cases parsed
      | ok result =>
          rw [entryRead] at parsed
          obtain ⟨_, _, parsed⟩ := bind_ok parsed
          split at parsed
          · cases parsed
          · rcases readEntry_advances left entryRead with ⟨left, entryFits⟩
            rcases ih left parsed with ⟨left, restFits⟩
            rw [List.drop_drop] at left
            rw [List.length_drop] at restFits
            exact ⟨left, by rw [directoryLength]; omega⟩

theorem readName_advances {name : Bytes} (left : reader.Left bytes)
    (parsed : readName path header reader = .ok (name, after)) :
    after.Left (bytes.drop header.nameLength.toNat) ∧
      0 < header.nameLength.toNat ∧ header.nameLength.toNat ≤ bytes.length := by
  obtain ⟨_, truncated, parsed⟩ := bind_ok parsed
  obtain ⟨_, nonempty, parsed⟩ := bind_ok parsed
  have isAfter : (reader.getRaw header.nameLength.toNat).2 = after := by
    cases parsed
    rfl
  have named : (reader.getRaw header.nameLength.toNat).1 ≠ [] := (require_ok nonempty).1
  have ok : (reader.getRaw header.nameLength.toNat).2.ok = true := by
    rcases require_ok truncated with zero | ok
    · have nothing : (reader.getRaw 0).1 = [] := by
        unfold getRaw
        split <;> rfl
      rw [zero] at named
      exact absurd nothing named
    · exact ok
  rcases getRaw_backward left (lt_trans header.nameLength.toNat_lt (by decide)) ok with
    ⟨part, rest, shape, size, isPart, left⟩
  rw [isPart] at named
  rw [isAfter] at left
  have behind : bytes.drop header.nameLength.toNat = rest := by
    rw [shape]
    exact List.drop_left' size
  refine ⟨by rw [behind]; exact left, ?_, ?_⟩
  · rw [← size]
    exact List.length_pos_iff.mpr named
  · rw [shape, List.length_append]
    omega

end Advance

section Accepted

variable {path : Bytes} {allocator : MemoryAllocator} {content : FileContent} {tag : Nat}
  {collection : Collection}

theorem Loaded.directory_end {preamble : Preamble} {records : OrderedMap RecordId RecordSlot}
    {reader : ByteReader}
    (loaded : Loaded path allocator (.regular content) tag collection preamble records reader) :
    headerSize < directoryEnd preamble.bytes preamble.header ∧
      directoryEnd preamble.bytes preamble.header ≤ preamble.header.vectorRegionOff.toNat := by
  have accepted := loaded.accepted
  have small : (preamble.bytes.drop headerSize).length < word := by
    rcases accepted.content with ⟨held, _, isContent⟩
    have sized := held.sized
    rw [← isContent, List.length_drop, word]
    omega
  have closed : ReadClosed (fun reader => reader.data = preamble.bytes.drop headerSize) :=
    fun reader length _ same => (getRaw_data reader length).trans same
  have data := closed.directory loaded.directory (closed.name accepted.named rfl)
  rcases readName_advances (left_new _ small) accepted.named with ⟨left, named, nameFits⟩
  rcases readDirectory_advances left loaded.directory with ⟨left, directoryFits⟩
  have position := left.position
  have begins := accepted.vectorRegion.1
  have within := loaded.within
  rw [data] at position
  simp only [List.drop_drop, List.length_drop] at position nameFits directoryFits
  simp only [directoryEnd]
  omega

theorem Preamble.Accepted.indexed_iff {preamble : Preamble}
    (accepted : preamble.Accepted path (.regular content)) :
    preamble.header.indexType = IndexType.none.toByte ↔
      preamble.header.indexRegionLen.toNat = 0 := by
  have present : preamble.header.indexRegionLen = 0 ↔
      preamble.header.indexRegionLen.toNat = 0 := by
    rw [← UInt64.toNat_inj]
    rfl
  rw [← present, ← accepted.presence]
  have type := accepted.type
  constructor
  · intro isNone
    rw [isNone, IndexType.ofByte_toByte] at type
    exact (Option.some.inj type).symm
  · intro isNone
    rw [isNone] at type
    unfold IndexType.ofByte? at type
    split_ifs at type with zero hnsw ivf
    · exact zero
    · cases type
    · cases type

theorem Loaded.well_placed_iff {preamble : Preamble} {records : OrderedMap RecordId RecordSlot}
    {reader : ByteReader}
    (loaded : Loaded path allocator (.regular content) tag collection preamble records reader) :
    WellPlaced preamble.bytes preamble.header ↔
      alignment ∣ preamble.header.vectorRegionOff.toNat ∧
        IndexApart preamble.bytes preamble.header := by
  have indexed := loaded.accepted.indexed_iff
  have ends := loaded.directory_end
  have empty : preamble.header.vectorRegionLen = 0 ↔
      preamble.header.vectorRegionLen.toNat = 0 := by
    rw [← UInt64.toNat_inj]
    rfl
  have apart : (regions preamble.bytes preamble.header).Pairwise Separate ↔
      IndexApart preamble.bytes preamble.header := by
    rw [regions, IndexApart, empty]
    by_cases present : preamble.header.indexType = IndexType.none.toByte
    · rw [if_pos present]
      simp only [List.append_nil, List.pairwise_cons, List.forall_mem_cons, List.not_mem_nil,
        false_implies, implies_true, List.Pairwise.nil, separate_iff, ne_eq, present,
        not_true_eq_false, and_true, iff_true, headerSize] at ends ⊢
      omega
    · have occupied := mt indexed.mpr present
      rw [if_neg present]
      simp only [List.cons_append, List.nil_append, List.pairwise_cons, List.forall_mem_cons,
        List.not_mem_nil, false_implies, implies_true, List.Pairwise.nil, separate_iff, ne_eq,
        present, not_false_eq_true, true_implies, and_true, headerSize] at ends ⊢
      omega
  rw [← apart]
  exact ⟨fun placed => ⟨placed.aligned, placed.separate⟩, fun both => ⟨both.2, both.1⟩⟩

end Accepted

section Refused

variable {path : Bytes} {allocator : MemoryAllocator} {content : FileContent} {tag : Nat}
  {header : Header}

theorem checkRegions_corrupt {total : Nat} {type : IndexType} {error : Error}
    (failed : checkRegions path header total type = .error error) :
    error.category = .corruption := by
  rcases bind_error failed with first | ⟨_, _, failed⟩
  · rw [require_error first, corrupt]
  rcases bind_error failed with second | ⟨_, _, failed⟩
  · rw [require_error second, corrupt]
  rcases bind_error failed with third | ⟨_, _, failed⟩
  · rw [require_error third, corrupt]
  rcases bind_error failed with fourth | ⟨_, _, failed⟩
  · rw [require_error fourth, corrupt]
  rcases bind_error failed with fifth | ⟨_, _, failed⟩
  · rw [require_error fifth, corrupt]
  rw [require_error failed, corrupt]

theorem readName_corrupt {reader : ByteReader} {error : Error}
    (failed : readName path header reader = .error error) : error.category = .corruption := by
  rcases bind_error failed with first | ⟨_, _, failed⟩
  · rw [require_error first, corrupt]
  rcases bind_error failed with second | ⟨_, _, failed⟩
  · rw [require_error second, corrupt]
  cases failed

theorem readPreamble_corrupt (read : readHeader path content.bytes = .ok header)
    (version : header.formatVersion = formatVersion) {error : Error}
    (failed : readPreamble path (.regular content) = .error error) :
    error.category = .corruption := by
  have sized : ¬ content.bytes.length < headerSize := by
    have isFile := readHeader_ok (lt_trans content.sized (by decide)) read
    rw [isFile, length_fileOf]
    omega
  have opened : openFile path (.regular content) = .ok content.bytes := if_neg sized
  rcases bind_error failed with unopened | ⟨bytes, isBytes, failed⟩
  · rw [opened] at unopened
    cases unopened
  rw [opened, Except.ok.injEq] at isBytes
  rw [← isBytes] at failed
  rcases bind_error failed with unread | ⟨same, isHeader, failed⟩
  · rw [read] at unread
    cases unread
  rw [read, Except.ok.injEq] at isHeader
  rw [← isHeader] at failed
  rcases bind_error failed with other | ⟨_, _, failed⟩
  · unfold require at other
    rw [if_pos version] at other
    cases other
  rcases bind_error failed with altered | ⟨_, _, failed⟩
  · rw [require_error altered, damaged]
  rcases bind_error failed with bounds | ⟨_, _, failed⟩
  · rw [require_error bounds, corrupt]
  rcases bind_error failed with unknown | ⟨_, _, failed⟩
  · unfold readMetric at unknown
    split at unknown <;> cases unknown
    rfl
  rcases bind_error failed with unknown | ⟨_, _, failed⟩
  · unfold readIndexType at unknown
    split at unknown <;> cases unknown
    rfl
  rcases bind_error failed with misfit | ⟨_, _, failed⟩
  · exact checkRegions_corrupt misfit
  rcases bind_error failed with unnamed | ⟨_, _, failed⟩
  · exact readName_corrupt unnamed
  cases failed

theorem load_refused (read : readHeader path content.bytes = .ok header)
    (version : header.formatVersion = formatVersion) {error : Error}
    (failed : load path allocator (.regular content) tag = .ok (.error error)) :
    error.category = .corruption := by
  cases parsed : readPreamble path (.regular content) with
  | error reason =>
      rw [load, parsed] at failed
      cases failed
      exact readPreamble_corrupt read version parsed
  | ok preamble => exact load_corrupt parsed failed

end Refused

section Layout

variable {path : Bytes} {allocator : MemoryAllocator} {content : FileContent} {tag : Nat}
  {header : Header}

/-- The regions of an accepted file are placed as the format says exactly when
the vectors are aligned and the index lies apart from the rest, neither of which
is checked. A file with a header of this version is refused for corruption only. -/
theorem load_well_placed_iff {outcome : Result Collection}
    (read : readHeader path content.bytes = .ok header)
    (done : load path allocator (.regular content) tag = .ok outcome) :
    (header.formatVersion = formatVersion →
      ∀ error, outcome = .error error → error.category = .corruption) ∧
      ∀ collection, outcome = .ok collection →
        (WellPlaced content.bytes header ↔
          alignment ∣ header.vectorRegionOff.toNat ∧ IndexApart content.bytes header) := by
  constructor
  · intro version error failed
    rw [failed] at done
    exact load_refused read version done
  · intro collection loaded
    rw [loaded] at done
    rcases load_ok done with ⟨preamble, records, reader, stages⟩
    have isHeader := stages.accepted.header
    rcases stages.accepted.content with ⟨_, isFile, isContent⟩
    cases isFile
    rw [← isContent, read, Except.ok.injEq] at isHeader
    have placed := stages.well_placed_iff
    rw [← isContent, ← isHeader] at placed
    exact placed

/-- A header of a file of 77 bytes whose index region is its first 12. -/
def misplaced : Header :=
  { formatVersion := formatVersion
    flags := 0
    dimensionality := 1
    metric := DistanceMetric.euclidean.toByte
    indexType := IndexType.ivf.toByte
    reserved0 := 0
    reserved1 := 0
    recordCount := 0
    nameLength := 1
    vectorRegionOff := 77
    vectorRegionLen := 0
    indexRegionOff := 0
    indexRegionLen := 12
    contentCrc64 := crc64Ecma [99] 0 }

def misplacedFile : FileContent := ⟨fileOf misplaced [99], by decide +kernel⟩

theorem read_misplaced : readHeader [] misplacedFile.bytes = .ok misplaced :=
  readHeader_fileOf [] misplaced [99] (by decide +kernel)

theorem load_well_placed_iff_of_misplaced :
    ∃ outcome, load [] (MemoryAllocator.new 64 (fun _ => 0)) (.regular misplacedFile) 1 =
        .ok outcome ∧
      (misplaced.formatVersion = formatVersion →
        ∀ error, outcome = .error error → error.category = .corruption) ∧
      ∀ collection, outcome = .ok collection →
        (WellPlaced misplacedFile.bytes misplaced ↔
          alignment ∣ misplaced.vectorRegionOff.toNat ∧
            IndexApart misplacedFile.bytes misplaced) := by
  rcases ok_of_isOk
    (show (load [] (MemoryAllocator.new 64 (fun _ => 0)) (.regular misplacedFile) 1).isOk = true
      by decide +kernel) with ⟨outcome, done⟩
  exact ⟨outcome, done, load_well_placed_iff read_misplaced done⟩

/-- The file is accepted. Its index region overlaps the header, and its vectors
are at 77. -/
theorem load_accepts_misplaced :
    ∃ collection, load [] (MemoryAllocator.new 64 (fun _ => 0)) (.regular misplacedFile) 1 =
        .ok (.ok collection) ∧
      readHeader [] misplacedFile.bytes = .ok misplaced ∧
      ¬ (regions misplacedFile.bytes misplaced).Pairwise Separate ∧
      ¬ alignment ∣ misplaced.vectorRegionOff.toNat := by
  have told : (load [] (MemoryAllocator.new 64 (fun _ => 0)) (.regular misplacedFile) 1).toOption.any
      (fun outcome => outcome.isOk) = true := by decide +kernel
  rcases ok_of_any told with ⟨outcome, loaded, fine⟩
  rcases ok_of_isOk fine with ⟨collection, isLoaded⟩
  rw [isLoaded] at loaded
  refine ⟨collection, loaded, read_misplaced, ?_, by decide⟩
  intro separate
  have member : Set.Ico 0 12 ∈ (regions misplacedFile.bytes misplaced).tail :=
    List.mem_cons_of_mem _ (List.mem_cons_of_mem _ (List.mem_singleton_self _))
  have apart := (List.pairwise_cons.mp separate).1 (Set.Ico 0 12) member
  exact apart 0 (show 0 ∈ Set.Ico 0 headerSize by decide) (show 0 ∈ Set.Ico 0 12 by decide)

end Layout

end VectorVault.PersistenceManager
