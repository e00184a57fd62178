import VectorVault.SnapshotImage

/-! Which fields of a header a changed byte can reach.

The header is a list of little-endian fields. A byte outside a field's own leaves
its digits, and a field keeps its value when the digits its range allows it do. -/

namespace VectorVault

open Snapshot ByteReader

namespace LittleEndian

theorem split_take {width : Nat} (count value : Nat) (within : count ≤ width) :
    (split width value).take count = split count value := by
  induction count generalizing width value with
  | zero => rw [List.take_zero, split]
  | succ count ih =>
      cases width with
      | zero => exact absurd within (by omega)
      | succ width => rw [split, split, List.take_succ_cons, ih _ (by omega)]

theorem mod_of_digits {width count first second : Nat} (within : count ≤ width)
    (same : ∀ digit < count, (split width first)[digit]? = (split width second)[digit]?) :
    first % 256 ^ count = second % 256 ^ count := by
  have digits : split count first = split count second := by
    rw [← split_take count first within, ← split_take count second within]
    apply List.ext_getElem?
    intro digit
    rw [List.getElem?_take, List.getElem?_take]
    split
    · next below => exact same digit below
    · rfl
  rw [← combine_split_mod, ← combine_split_mod, digits]

theorem u8_below (value : UInt8) : value.toNat < 256 ^ 1 := value.toNat_lt

theorem u64_below (value : UInt64) : value.toNat < 256 ^ 8 := value.toNat_lt

end LittleEndian

open LittleEndian

def putFields (fields : List (Nat × Nat)) : Bytes :=
  fields.flatMap (fun field => split field.1 field.2)

def offsetOf (fields : List (Nat × Nat)) (index : Nat) : Nat :=
  ((fields.take index).map Prod.fst).sum

/-- Fields of the same widths whose bytes agree but for one: a field keeps each
digit that is not that byte. -/
theorem digits_kept (fields other : List (Nat × Nat)) (start number : Nat)
    (widths : other.map Prod.fst = fields.map Prod.fst)
    (same : ∀ place, start + place ≠ number →
      (putFields other)[place]? = (putFields fields)[place]?)
    {index width first second : Nat} (isFirst : fields[index]? = some (width, first))
    (isSecond : other[index]? = some (width, second)) {digit : Nat} (inside : digit < width)
    (elsewhere : start + offsetOf fields index + digit ≠ number) :
    (split width second)[digit]? = (split width first)[digit]? := by
  induction fields generalizing other start index with
  | nil => cases isFirst
  | cons field rest ih =>
      cases other with
      | nil => cases widths
      | cons field' rest' =>
          obtain ⟨wide, later⟩ := List.cons.inj widths
          have length : (split field'.1 field'.2).length = (split field.1 field.2).length := by
            rw [length_split, length_split, wide]
          simp only [putFields, List.flatMap_cons] at same
          cases index with
          | zero =>
              cases isFirst
              cases isSecond
              have here := same digit (by simpa [offsetOf] using elsewhere)
              rw [List.getElem?_append_left (by rw [length_split]; exact inside),
                List.getElem?_append_left (by rw [length_split]; exact inside)] at here
              exact here
          | succ index =>
              apply ih rest' (start + field.1) later _ isFirst isSecond
              · simp only [offsetOf, List.take_succ_cons, List.map_cons, List.sum_cons]
                  at elsewhere
                rw [offsetOf]
                omega
              · intro place apart
                have here := same (field.1 + place) (by omega)
                rw [List.getElem?_append_right (by rw [length_split, wide]; omega),
                  List.getElem?_append_right (by rw [length_split]; omega)] at here
                rw [length_split, length_split, wide, Nat.add_sub_cancel_left] at here
                exact here

namespace Snapshot.Header

def fields (header : Header) : List (Nat × Nat) :=
  [(4, header.formatVersion.toNat), (4, header.flags.toNat), (4, header.dimensionality.toNat),
    (1, header.metric.toNat), (1, header.indexType.toNat), (1, header.reserved0.toNat),
    (1, header.reserved1.toNat), (8, header.recordCount.toNat), (4, header.nameLength.toNat),
    (8, header.vectorRegionOff.toNat), (8, header.vectorRegionLen.toNat),
    (8, header.indexRegionOff.toNat), (8, header.indexRegionLen.toNat),
    (8, header.contentCrc64.toNat)]

def place (index : Nat) : Nat :=
  magic.length + ([4, 4, 4, 1, 1, 1, 1, 8, 4, 8, 8, 8, 8, 8].take index).sum

theorem offsetOf_fields (header : Header) (index : Nat) :
    magic.length + offsetOf header.fields index = place index := by
  rw [offsetOf, List.map_take, place]
  rfl

theorem put_fields (header : Header) : header.put = putFields header.fields := by
  have byte : ∀ value : UInt8, putU8 value = split 1 value.toNat := by
    intro value
    rw [putU8, split, split, UInt8.ofNat_toNat]
  simp only [put, putFields, fields, byte, putU32, putU64, List.flatMap_cons, List.flatMap_nil,
    List.append_nil, List.append_assoc]

/-- A header of which at most the byte with the given number in the file differs. -/
def Altered (number : Nat) (before after : Header) : Prop :=
  ∀ place, magic.length + place ≠ number → after.put[place]? = before.put[place]?

variable {number : Nat} {before after : Header}

theorem Altered.low (altered : Altered number before after) (index : Nat)
    {width first second : Nat} (isFirst : before.fields[index]? = some (width, first))
    (isSecond : after.fields[index]? = some (width, second)) (count : Nat)
    (within : count ≤ width) (elsewhere : number < place index ∨ place index + count ≤ number) :
    second % 256 ^ count = first % 256 ^ count := by
  rw [← offsetOf_fields before] at elsewhere
  apply mod_of_digits within
  intro digit below
  apply digits_kept before.fields after.fields magic.length number rfl _ isFirst isSecond
    (below.trans_le within)
  · omega
  · intro place apart
    rw [← put_fields, ← put_fields]
    exact altered place apart

/-- A field below a power of 256 keeps its value unless one of its digits below
that power is the byte. -/
theorem Altered.field (altered : Altered number before after) (index : Nat)
    {width first second : Nat} (isFirst : before.fields[index]? = some (width, first))
    (isSecond : after.fields[index]? = some (width, second)) (count : Nat)
    (within : count ≤ width) (small : first < 256 ^ count) (smallToo : second < 256 ^ count)
    (elsewhere : number < place index ∨ place index + count ≤ number) : second = first := by
  have same := altered.low index isFirst isSecond count within elsewhere
  rw [Nat.mod_eq_of_lt small, Nat.mod_eq_of_lt smallToo] at same
  exact same

end Snapshot.Header

namespace PersistenceManager

theorem readHeader_ok {path bytes : Bytes} {header : Header} (small : bytes.length < word)
    (read : readHeader path bytes = .ok header) : bytes = fileOf header (bytes.drop headerSize) := by
  unfold readHeader at read
  have left := left_new bytes small
  simp only at read
  split at read
  · cases read
  · next found =>
      rw [not_or, Bool.not_eq_false, ne_eq, not_not] at found
      obtain ⟨part, rest, halves, _, isPart, after⟩ :=
        getRaw_backward left (show magic.length < word by decide) found.1
      split at read
      · cases read
      · next parsed =>
          rw [Bool.not_eq_false] at parsed
          obtain ⟨_, tail, fields, _⟩ := inverse_header.backward _ rest after parsed
          have isHeader := Except.ok.inj read
          rw [isHeader] at fields
          rw [found.2] at isPart
          have front : bytes = fileOf header tail := by
            rw [fileOf, List.append_assoc, ← fields, isPart]
            exact halves
          rw [front, fileOf_drop]

theorem fileOf_at (header : Header) (body : Bytes) {place : Nat}
    (within : place < header.put.length) :
    (fileOf header body)[magic.length + place]? = header.put[place]? := by
  rw [fileOf, List.append_assoc, List.getElem?_append_right (Nat.le_add_right _ _),
    Nat.add_sub_cancel_left, List.getElem?_append_left within]

theorem readHeader_altered {path : Bytes} {header after : Header} {body : Bytes} {number : Nat}
    {value : UInt8} {bytes : Bytes} (small : bytes.length < word) (inside : number < headerSize)
    (changed : bytes = (fileOf header body).set number value)
    (read : readHeader path bytes = .ok after) :
    bytes.drop headerSize = body ∧ Header.Altered number header after := by
  have same : ∀ place, place ≠ number → bytes[place]? = (fileOf header body)[place]? := by
    intro place apart
    rw [changed, List.getElem?_set_ne (Ne.symm apart)]
  have rest : bytes.drop headerSize = body := by
    rw [← fileOf_drop header body]
    apply List.ext_getElem?
    intro place
    rw [List.getElem?_drop, List.getElem?_drop]
    exact same _ (by omega)
  refine ⟨rest, ?_⟩
  have isFile := readHeader_ok small read
  rw [rest] at isFile
  intro place apart
  have lengths := (length_header header).trans (length_header after).symm
  by_cases within : place < header.put.length
  · have here := same _ apart
    rw [isFile, fileOf_at _ _ (by omega), fileOf_at _ _ within] at here
    exact here
  · rw [List.getElem?_eq_none (by omega), List.getElem?_eq_none (by omega)]

end PersistenceManager

end VectorVault
