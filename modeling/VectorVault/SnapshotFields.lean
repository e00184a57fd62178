import VectorVault.SnapshotFormat

/-! Sequences of typed writes and the reads that match them.

The reads of what was written give it back to the last byte. Over less than all
of it some read fails, and from then on the reader stands still and gives zeros. -/

namespace VectorVault.Snapshot

open LittleEndian ByteReader

section Fields

inductive Field where
  | u8 (value : UInt8)
  | u32 (value : UInt32)
  | u64 (value : UInt64)
  | i64 (value : Int64)
  | f32 (value : F32)
  | f64 (value : F64)
  | string (value : Bytes)
  | raw (value : Bytes)
  deriving DecidableEq

inductive Read where
  | u8
  | u32
  | u64
  | i64
  | f32
  | f64
  | string
  | raw (length : Nat)

def Field.put : Field → Bytes
  | .u8 value => putU8 value
  | .u32 value => putU32 value
  | .u64 value => putU64 value
  | .i64 value => putI64 value
  | .f32 value => putF32 value
  | .f64 value => putF64 value
  | .string value => putString value
  | .raw value => value

/-- The read that matches a write; a raw block is read by its length. -/
def Field.read : Field → Read
  | .u8 _ => .u8
  | .u32 _ => .u32
  | .u64 _ => .u64
  | .i64 _ => .i64
  | .f32 _ => .f32
  | .f64 _ => .f64
  | .string _ => .string
  | .raw value => .raw value.length

def Field.Fits : Field → Prop
  | .string value => value.length < 2 ^ 32
  | _ => True

def Read.get : Read → ByteReader → Field × ByteReader
  | .u8, reader => (.u8 reader.getU8.1, reader.getU8.2)
  | .u32, reader => (.u32 reader.getU32.1, reader.getU32.2)
  | .u64, reader => (.u64 reader.getU64.1, reader.getU64.2)
  | .i64, reader => (.i64 reader.getI64.1, reader.getI64.2)
  | .f32, reader => (.f32 reader.getF32.1, reader.getF32.2)
  | .f64, reader => (.f64 reader.getF64.1, reader.getF64.2)
  | .string, reader => (.string reader.getString.1, reader.getString.2)
  | .raw length, reader => (.raw (reader.getRaw length).1, (reader.getRaw length).2)

def Read.zero : Read → Field
  | .u8 => .u8 0
  | .u32 => .u32 0
  | .u64 => .u64 0
  | .i64 => .i64 0
  | .f32 => .f32 0
  | .f64 => .f64 0
  | .string => .string []
  | .raw _ => .raw []

def writeAll (fields : List Field) : Bytes :=
  fields.foldl (fun buffer field => buffer ++ field.put) []

def readAll : List Read → ByteReader → List Field × ByteReader
  | [], reader => ([], reader)
  | read :: rest, reader =>
      let (value, next) := read.get reader
      let (values, final) := readAll rest next
      (value :: values, final)

theorem writeAll_eq (fields : List Field) : writeAll fields = fields.flatMap Field.put := by
  have appended : ∀ buffer, fields.foldl (fun buffer field => buffer ++ field.put) buffer =
      buffer ++ fields.flatMap Field.put := by
    induction fields with
    | nil => simp
    | cons field rest ih =>
        intro buffer
        rw [List.foldl_cons, ih, List.flatMap_cons, List.append_assoc]
  exact appended []

end Fields

section Forward

variable {reader : ByteReader} {bytes : Bytes}

theorem inverse_raw {length : Nat} (bounded : length < word) :
    Inverse (fun reader => reader.getRaw length) (fun value => value)
      (fun value => value.length = length) := by
  constructor
  · intro reader value rest fits left
    have forward := getRaw_forward left
    rw [fits] at forward
    exact forward
  · intro reader bytes left ok
    rcases getRaw_backward left bounded ok with ⟨part, rest, halves, size, value, next⟩
    exact ⟨by rw [value]; exact size, rest, by rw [value]; exact halves, next⟩
  · intro reader ok
    exact getRaw_sticky length ok
  · intro reader
    exact getRaw_data reader length

/-- What an encoding begins with is not an encoding: over less than all of it the
read fails. -/
theorem Inverse.short {A : Type} {get : ByteReader → A × ByteReader} {put : A → Bytes}
    {fits : A → Prop} (inverse : Inverse get put fits) {value : A} {extra : Bytes}
    (fit : fits value) (small : (put value).length < word) (left : reader.Left bytes)
    (halves : put value = bytes ++ extra) (missing : extra ≠ []) : (get reader).2.ok = false := by
  by_contra read
  have ok : (get reader).2.ok = true := by simpa using read
  rcases inverse.backward reader bytes left ok with ⟨other, rest, isBytes, _⟩
  have whole : (new (put value)).Left (put value ++ []) := by
    rw [List.append_nil]
    exact left_new (put value) small
  have again : (new (put value)).Left (put (get reader).1 ++ (rest ++ extra)) := by
    have same : put (get reader).1 ++ (rest ++ extra) = put value := by
      rw [halves, isBytes, List.append_assoc]
    rw [same]
    exact left_new (put value) small
  have isValue := (inverse.forward _ value [] fit whole).1
  have isOther := (inverse.forward _ (get reader).1 (rest ++ extra) other again).1
  have equal : (get reader).1 = value := isOther.symm.trans isValue
  have lengths := congrArg List.length (halves.trans (congrArg (· ++ extra) isBytes))
  simp only [List.length_append, equal] at lengths
  have positive := List.length_pos_iff.mpr missing
  omega

theorem Field.forward (field : Field) (fits : field.Fits) {rest : Bytes}
    (left : reader.Left (field.put ++ rest)) :
    (field.read.get reader).1 = field ∧ (field.read.get reader).2.Left rest := by
  cases field with
  | u8 value => exact (inverse_u8.forward reader value rest trivial left).imp_left (congrArg u8)
  | u32 value => exact (inverse_u32.forward reader value rest trivial left).imp_left (congrArg u32)
  | u64 value => exact (inverse_u64.forward reader value rest trivial left).imp_left (congrArg u64)
  | i64 value => exact (inverse_i64.forward reader value rest trivial left).imp_left (congrArg i64)
  | f32 value => exact (inverse_u32.forward reader value rest trivial left).imp_left (congrArg f32)
  | f64 value => exact (inverse_u64.forward reader value rest trivial left).imp_left (congrArg f64)
  | string value =>
      exact (inverse_string.forward reader value rest fits left).imp_left (congrArg string)
  | raw value => exact (getRaw_forward left).imp_left (congrArg raw)

theorem Field.short (field : Field) (fits : field.Fits) (small : field.put.length < word)
    {extra : Bytes} (left : reader.Left bytes) (halves : field.put = bytes ++ extra)
    (missing : extra ≠ []) : (field.read.get reader).2.ok = false := by
  cases field with
  | u8 value => exact inverse_u8.short trivial small left halves missing
  | u32 value => exact inverse_u32.short trivial small left halves missing
  | u64 value => exact inverse_u64.short trivial small left halves missing
  | i64 value => exact inverse_i64.short trivial small left halves missing
  | f32 value => exact inverse_u32.short trivial small left halves missing
  | f64 value => exact inverse_u64.short trivial small left halves missing
  | string value => exact inverse_string.short fits small left halves missing
  | raw value => exact (inverse_raw small).short rfl small left halves missing

/-- Induction over the fields; `rest` is what was written after them. -/
theorem readAll_forward (fields : List Field) (fits : ∀ field ∈ fields, field.Fits) {rest : Bytes}
    (left : reader.Left (fields.flatMap Field.put ++ rest)) :
    (readAll (fields.map Field.read) reader).1 = fields ∧
      (readAll (fields.map Field.read) reader).2.Left rest := by
  induction fields generalizing reader with
  | nil => exact ⟨rfl, left⟩
  | cons field later ih =>
      rw [List.flatMap_cons, List.append_assoc] at left
      rcases field.forward (fits field List.mem_cons_self) left with ⟨value, next⟩
      rcases ih (fun other member => fits other (List.mem_cons_of_mem field member)) next with
        ⟨values, final⟩
      simp only [List.map_cons, readAll]
      exact ⟨by rw [value, values], final⟩

end Forward

section Failure

variable {reader : ByteReader}

theorem getRaw_failed (length : Nat) (failed : reader.ok = false) :
    reader.getRaw length = ([], reader) := by
  rw [getRaw, ensure, if_pos failed]

theorem getRaw_failing (length : Nat) (fails : (reader.getRaw length).2.ok = false) :
    (reader.getRaw length).1 = [] := by
  unfold getRaw ensure at fails ⊢
  split_ifs at fails ⊢ with failed overrun
  · rfl
  · rfl
  · exact absurd fails failed

theorem Read.get_failed (read : Read) (failed : reader.ok = false) :
    read.get reader = (read.zero, reader) := by
  cases read <;>
    simp only [Read.get, Read.zero, getU8, getU32, getU64, getI64, getF32, getF64, getString,
      getRaw_failed _ failed, combine] <;> rfl

theorem Read.get_failing (read : Read) (fails : (read.get reader).2.ok = false) :
    (read.get reader).1 = read.zero := by
  cases read with
  | string => exact congrArg Field.string (getRaw_failing _ fails)
  | raw length => exact congrArg Field.raw (getRaw_failing length fails)
  | u8 | u32 | u64 | i64 | f32 | f64 =>
      have empty := getRaw_failing _ fails
      simp only [Read.get, Read.zero, getU8, getU32, getU64, getI64, getF32, getF64, empty, combine]
      rfl

theorem readAll_failed (reads : List Read) (failed : reader.ok = false) :
    (readAll reads reader).2 = reader := by
  induction reads with
  | nil => rfl
  | cons read rest ih =>
      simp only [readAll, read.get_failed failed]
      exact ih

end Failure

section Cut

variable {reader : ByteReader}

theorem getRaw_within {length : Nat} (sized : reader.data.length < word) (bounded : length < word)
    (within : reader.pos ≤ reader.data.length) :
    (reader.getRaw length).2.pos ≤ reader.data.length := by
  unfold getRaw ensure
  split_ifs with failed overrun
  · exact within
  · exact within
  · simp only
    by_contra beyond
    apply overrun
    rcases Nat.lt_or_ge (reader.pos + length) word with plain | wraps
    · left
      rw [Nat.mod_eq_of_lt plain]
      omega
    · right
      rw [Nat.mod_eq_sub_mod wraps, Nat.mod_eq_of_lt (by omega)]
      omega

def Read.Bounded : Read → Prop
  | .raw length => length < word
  | _ => True

theorem Read.get_data (read : Read) (reader : ByteReader) :
    (read.get reader).2.data = reader.data := by
  cases read with
  | string => exact inverse_string.data reader
  | raw length => exact getRaw_data reader length
  | u8 | u32 | u64 | i64 | f32 | f64 => exact getRaw_data reader _

theorem Read.get_within (read : Read) (bounded : read.Bounded)
    (sized : reader.data.length < word) (within : reader.pos ≤ reader.data.length) :
    (read.get reader).2.pos ≤ reader.data.length := by
  cases read with
  | string =>
      have four := getRaw_within sized (show 4 < word by decide) within
      have same := getRaw_data reader 4
      rw [← same] at four
      have body := @getRaw_within _ reader.getU32.1.toNat (by rw [same]; exact sized)
        (lt_trans reader.getU32.1.toNat_lt (by decide)) four
      rw [same] at body
      exact body
  | raw length => exact getRaw_within sized bounded within
  | u8 => exact getRaw_within sized (by decide) within
  | u32 | f32 => exact getRaw_within sized (by decide) within
  | u64 | i64 | f64 => exact getRaw_within sized (by decide) within

theorem readAll_data (reads : List Read) (reader : ByteReader) :
    (readAll reads reader).2.data = reader.data := by
  induction reads generalizing reader with
  | nil => rfl
  | cons read rest ih => exact (ih _).trans (read.get_data reader)

theorem readAll_within (reads : List Read) (bounded : ∀ read ∈ reads, read.Bounded)
    (sized : reader.data.length < word) (within : reader.pos ≤ reader.data.length) :
    (readAll reads reader).2.pos ≤ reader.data.length := by
  induction reads generalizing reader with
  | nil => exact within
  | cons read rest ih =>
      have here := read.get_within (bounded read List.mem_cons_self) sized within
      have same := read.get_data reader
      rw [← same] at here
      have later := ih (fun other member => bounded other (List.mem_cons_of_mem read member))
        (by rw [same]; exact sized) here
      rw [same] at later
      exact later

/-- Induction over the fields; the read that meets the end is one of theirs. -/
theorem readAll_short (fields : List Field) (fits : ∀ field ∈ fields, field.Fits)
    {bytes extra : Bytes} (small : (fields.flatMap Field.put).length < word)
    (left : reader.Left bytes) (halves : fields.flatMap Field.put = bytes ++ extra)
    (missing : extra ≠ []) : (readAll (fields.map Field.read) reader).2.ok = false := by
  induction fields generalizing reader bytes with
  | nil => exact absurd (List.append_eq_nil_iff.mp halves.symm).2 missing
  | cons field later ih =>
      have fit := fits field List.mem_cons_self
      have others : ∀ other ∈ later, other.Fits :=
        fun other member => fits other (List.mem_cons_of_mem field member)
      rw [List.flatMap_cons, List.length_append] at small
      rw [List.flatMap_cons] at halves
      simp only [List.map_cons, readAll]
      rcases List.append_eq_append_iff.mp halves with ⟨tail, isBytes, isLater⟩ |
          ⟨tail, isField, isExtra⟩
      · rw [isBytes] at left
        exact ih others (by omega) (field.forward fit left).2 isLater
      · by_cases complete : tail = []
        · rw [complete, List.append_nil] at isField
          rw [complete, List.nil_append] at isExtra
          rw [← isField, ← List.append_nil field.put] at left
          exact ih others (by omega) (field.forward fit left).2 isExtra.symm
        · have fails := field.short fit (by omega) left isField complete
          rw [readAll_failed _ fails]
          exact fails

/-- The reads over bytes that end too soon, at each of their stages. -/
structure ReadCut (reads : List Read) (bytes : Bytes) : Prop where
  fails : (readAll reads (new bytes)).2.ok = false
  within : ∀ front back, reads = front ++ back →
    (readAll front (new bytes)).2.pos ≤ bytes.length
  zero : ∀ front read back, reads = front ++ read :: back →
    (read.get (readAll front (new bytes)).2).2.ok = false →
      (read.get (readAll front (new bytes)).2).1 = read.zero
  still : ∀ front read back, reads = front ++ read :: back →
    (readAll front (new bytes)).2.ok = false →
      (read.get (readAll front (new bytes)).2) = (read.zero, (readAll front (new bytes)).2)

/-- Every sequence of writes, against the reads that match it, over the whole of
the buffer and over every shorter beginning of it. -/
theorem writeAll_readAll (fields : List Field) (fits : ∀ field ∈ fields, field.Fits)
    (small : (writeAll fields).length < word) :
    readAll (fields.map Field.read) (new (writeAll fields)) =
        (fields, ⟨writeAll fields, (writeAll fields).length, true⟩) ∧
      ∀ cut extra, writeAll fields = cut ++ extra → extra ≠ [] →
        ReadCut (fields.map Field.read) cut := by
  have bounded : ∀ read ∈ fields.map Field.read, read.Bounded := by
    intro read member
    rcases List.mem_map.mp member with ⟨field, inside, isRead⟩
    rw [← isRead]
    cases field with
    | raw value =>
        rw [writeAll_eq] at small
        have part := List.sublist_flatten_of_mem (List.mem_map_of_mem (f := Field.put) inside)
        rw [← List.flatMap_def] at part
        exact lt_of_le_of_lt part.length_le small
    | u8 | u32 | u64 | i64 | f32 | f64 | string => trivial
  rw [writeAll_eq] at small ⊢
  constructor
  · have start : (new (fields.flatMap Field.put)).Left (fields.flatMap Field.put ++ []) := by
      rw [List.append_nil]
      exact left_new _ small
    rcases readAll_forward fields fits start with ⟨values, final⟩
    have position := final.position
    have data : (readAll (fields.map Field.read) (new (fields.flatMap Field.put))).2.data =
        fields.flatMap Field.put := readAll_data _ _
    rw [List.length_nil, Nat.add_zero, data] at position
    apply Prod.ext values
    cases outcome : (readAll (fields.map Field.read) (new (fields.flatMap Field.put))).2 with
    | mk bytes pos ok =>
        rw [outcome] at data position final
        simp only at data position
        rw [data, position, show ok = true from final.1]
  · intro cut extra halves missing
    have sized : cut.length < word := by
      rw [halves, List.length_append] at small
      omega
    constructor
    · exact readAll_short fields fits small (left_new cut sized) halves missing
    · intro front back split
      apply readAll_within front _ sized (Nat.zero_le _)
      intro read member
      exact bounded read (by rw [split]; exact List.mem_append_left back member)
    · intro front read back _ fails
      exact read.get_failing fails
    · intro front read back _ failed
      exact read.get_failed failed

theorem writeAll_readAll_of_three :
    readAll [.u32, .string, .raw 2] (new (writeAll [.u32 7, .string [1], .raw [2, 3]])) =
        ([.u32 7, .string [1], .raw [2, 3]],
          ⟨writeAll [.u32 7, .string [1], .raw [2, 3]],
            (writeAll [.u32 7, .string [1], .raw [2, 3]]).length, true⟩) ∧
      ∀ cut extra, writeAll [.u32 7, .string [1], .raw [2, 3]] = cut ++ extra → extra ≠ [] →
        ReadCut [.u32, .string, .raw 2] cut := by
  apply writeAll_readAll [.u32 7, .string [1], .raw [2, 3]]
  · intro field member
    simp only [List.mem_cons, List.not_mem_nil, or_false] at member
    rcases member with isNumber | isString | isBlock
    · rw [isNumber]
      trivial
    · rw [isString]
      exact (by decide : 1 < 2 ^ 32)
    · rw [isBlock]
      trivial
  · decide

end Cut

end VectorVault.Snapshot
