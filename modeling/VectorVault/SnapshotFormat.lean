import VectorVault.Types
import VectorVault.Library.LittleEndian

/-! The primitive writes and reads of the snapshot format.

A write is the bytes it appends. A reader is a cursor with a sticky failure
flag; a failed read yields a zero or an empty value. -/

namespace VectorVault.Snapshot

open LittleEndian

def magic : Bytes := text "VVAULT01"
def formatVersion : UInt32 := 1
def alignment : Nat := 64
def headerSize : Nat := 76

section Writer

def putU8 (value : UInt8) : Bytes := [value]
def putU32 (value : UInt32) : Bytes := split 4 value.toNat
def putU64 (value : UInt64) : Bytes := split 8 value.toNat
def putI64 (value : Int64) : Bytes := putU64 value.toUInt64
def putF32 (value : F32) : Bytes := putU32 value
def putF64 (value : F64) : Bytes := putU64 value

def putString (value : Bytes) : Bytes := putU32 (UInt32.ofNat value.length) ++ value

/-- The components of a vector, as a little-endian host keeps them in memory. -/
def putVector (components : List F32) : Bytes := components.flatMap putF32

def getVector : Bytes → List F32
  | a :: b :: c :: d :: rest => UInt32.ofNat (combine [a, b, c, d]) :: getVector rest
  | _ => []

@[simp] theorem length_putU8 (value : UInt8) : (putU8 value).length = 1 := rfl

@[simp] theorem length_putU32 (value : UInt32) : (putU32 value).length = 4 :=
  length_split 4 value.toNat

@[simp] theorem length_putU64 (value : UInt64) : (putU64 value).length = 8 :=
  length_split 8 value.toNat

@[simp] theorem length_putVector (components : List F32) :
    (putVector components).length = components.length * 4 := by
  induction components with
  | nil => rfl
  | cons head tail ih =>
      rw [putVector, List.flatMap_cons, List.length_append, putF32, length_putU32]
      simp only [putVector] at ih
      rw [ih, List.length_cons]
      omega

theorem getVector_putVector (components : List F32) :
    getVector (putVector components) = components := by
  induction components with
  | nil => rfl
  | cons head tail ih =>
      have bits : ∀ value : F32, UInt32.ofNat (combine (putU32 value)) = value := by
        intro value
        rw [putU32, combine_split 4 value.toNat value.toNat_lt, UInt32.ofNat_toNat]
      obtain ⟨a, b, c, d, shape⟩ : ∃ a b c d, putU32 head = [a, b, c, d] := ⟨_, _, _, _, rfl⟩
      have first := bits head
      rw [shape] at first
      rw [putVector, List.flatMap_cons, putF32, shape]
      simp only [List.cons_append, List.nil_append, getVector, first]
      rw [← putVector, ih]

theorem length_getVector {bytes : Bytes} (count : Nat) (sized : bytes.length = count * 4) :
    (getVector bytes).length = count := by
  induction count generalizing bytes with
  | zero =>
      rw [List.length_eq_zero_iff.mp (sized.trans (Nat.zero_mul 4))]
      rfl
  | succ count ih =>
      match bytes, sized with
      | a :: b :: c :: d :: rest, sized =>
          simp only [List.length_cons] at sized
          rw [getVector, List.length_cons, ih (by omega)]
      | [], sized => simp only [List.length_nil] at sized; omega
      | [_], sized => simp only [List.length_cons, List.length_nil] at sized; omega
      | [_, _], sized => simp only [List.length_cons, List.length_nil] at sized; omega
      | [_, _, _], sized => simp only [List.length_cons, List.length_nil] at sized; omega

end Writer

structure ByteReader where
  data : Bytes
  pos : Nat
  ok : Bool

namespace ByteReader

def new (data : Bytes) : ByteReader := ⟨data, 0, true⟩

/-- Whether `need` more bytes are there; trips the flag when not. The second
comparison catches a sum that wrapped around. -/
def ensure (reader : ByteReader) (need : Nat) : Bool × ByteReader :=
  if reader.ok = false then (false, reader)
  else if (reader.pos + need) % word > reader.data.length ∨ (reader.pos + need) % word < reader.pos
  then (false, { reader with ok := false })
  else (true, reader)

def remaining (reader : ByteReader) : Nat :=
  if reader.pos ≤ reader.data.length then reader.data.length - reader.pos else 0

def getRaw (reader : ByteReader) (length : Nat) : Bytes × ByteReader :=
  match reader.ensure length with
  | (true, checked) =>
      ((checked.data.drop checked.pos).take length, { checked with pos := checked.pos + length })
  | (false, failed) => ([], failed)

def getU8 (reader : ByteReader) : UInt8 × ByteReader :=
  let (bytes, next) := reader.getRaw 1
  (UInt8.ofNat (combine bytes), next)

def getU32 (reader : ByteReader) : UInt32 × ByteReader :=
  let (bytes, next) := reader.getRaw 4
  (UInt32.ofNat (combine bytes), next)

def getU64 (reader : ByteReader) : UInt64 × ByteReader :=
  let (bytes, next) := reader.getRaw 8
  (UInt64.ofNat (combine bytes), next)

def getI64 (reader : ByteReader) : Int64 × ByteReader :=
  let (value, next) := reader.getU64
  (value.toInt64, next)

def getF32 (reader : ByteReader) : F32 × ByteReader := reader.getU32

def getF64 (reader : ByteReader) : F64 × ByteReader := reader.getU64

def getString (reader : ByteReader) : Bytes × ByteReader :=
  let (length, next) := reader.getU32
  next.getRaw length.toNat

/-- A reader over the next `length` bytes, and this one past them. -/
def sub (reader : ByteReader) (length : Nat) : ByteReader × ByteReader :=
  let (bytes, next) := reader.getRaw length
  (ByteReader.new bytes, next)

def Left (reader : ByteReader) (bytes : Bytes) : Prop :=
  reader.ok = true ∧ reader.data.length < word ∧
    ∃ front, reader.data = front ++ bytes ∧ reader.pos = front.length

variable {reader : ByteReader} {bytes : Bytes}

theorem left_new (data : Bytes) (small : data.length < word) : (new data).Left data :=
  ⟨rfl, small, [], rfl, rfl⟩

theorem Left.remaining (left : reader.Left bytes) : reader.remaining = bytes.length := by
  obtain ⟨_, _, front, split, position⟩ := left
  rw [ByteReader.remaining, split, position, List.length_append]
  split <;> omega

theorem Left.position (left : reader.Left bytes) :
    reader.pos + bytes.length = reader.data.length := by
  obtain ⟨_, _, front, split, position⟩ := left
  rw [split, position, List.length_append]

theorem Left.unique (left : reader.Left bytes) {other : Bytes} (leftToo : reader.Left other) :
    bytes = other := by
  obtain ⟨_, _, front, split, position⟩ := left
  obtain ⟨_, _, front', split', position'⟩ := leftToo
  exact (List.append_inj (split.symm.trans split') (position.symm.trans position')).2

theorem getRaw_data (reader : ByteReader) (length : Nat) :
    (reader.getRaw length).2.data = reader.data := by
  unfold getRaw ensure
  split_ifs <;> rfl

theorem getRaw_sticky (length : Nat) (ok : (reader.getRaw length).2.ok = true) :
    reader.ok = true := by
  cases failed : reader.ok with
  | true => rfl
  | false =>
      rw [getRaw, ensure, if_pos failed] at ok
      rw [← failed]
      exact ok

theorem getRaw_forward {part rest : Bytes} (left : reader.Left (part ++ rest)) :
    (reader.getRaw part.length).1 = part ∧ (reader.getRaw part.length).2.Left rest := by
  obtain ⟨ok, small, front, split, position⟩ := left
  have total : reader.data.length = front.length + (part.length + rest.length) := by
    rw [split, List.length_append, List.length_append]
  have sum : (reader.pos + part.length) % word = reader.pos + part.length := by
    apply Nat.mod_eq_of_lt
    omega
  have fits : ¬ ((reader.pos + part.length) % word > reader.data.length ∨
      (reader.pos + part.length) % word < reader.pos) := by
    omega
  have result : reader.getRaw part.length =
      (part, { reader with pos := reader.pos + part.length }) := by
    rw [getRaw, ensure, if_neg (by simp [ok]), if_neg fits]
    simp [split, position]
  rw [result]
  exact ⟨rfl, ok, small, front ++ part, by rw [split, List.append_assoc], by
    rw [List.length_append, position]⟩

theorem getRaw_backward (left : reader.Left bytes) {length : Nat} (bounded : length < word)
    (ok : (reader.getRaw length).2.ok = true) :
    ∃ part rest, bytes = part ++ rest ∧ part.length = length ∧
      (reader.getRaw length).1 = part ∧ (reader.getRaw length).2.Left rest := by
  by_cases enough : length ≤ bytes.length
  · have halves : bytes = bytes.take length ++ bytes.drop length :=
      (List.take_append_drop length bytes).symm
    have size : (bytes.take length).length = length := by
      rw [List.length_take]
      omega
    have forward := @getRaw_forward reader (bytes.take length) (bytes.drop length)
      (by rw [← halves]; exact left)
    rw [size] at forward
    exact ⟨_, _, halves, size, forward.1, forward.2⟩
  · obtain ⟨good, small, front, split, position⟩ := left
    have total : reader.data.length = front.length + bytes.length := by
      rw [split, List.length_append]
    have missing : (reader.pos + length) % word > reader.data.length ∨
        (reader.pos + length) % word < reader.pos := by
      rcases Nat.lt_or_ge (reader.pos + length) word with plain | wraps
      · left
        rw [Nat.mod_eq_of_lt plain]
        omega
      · right
        rw [Nat.mod_eq_sub_mod wraps, Nat.mod_eq_of_lt (by omega)]
        omega
    rw [getRaw, ensure, if_neg (by simp [good]), if_pos missing] at ok
    cases ok

end ByteReader

open ByteReader

/-- A read that undoes a write on the values that fit, and reads nothing else. -/
structure Inverse {A : Type} (get : ByteReader → A × ByteReader) (put : A → Bytes)
    (fits : A → Prop) : Prop where
  forward : ∀ reader value rest, fits value → reader.Left (put value ++ rest) →
    (get reader).1 = value ∧ (get reader).2.Left rest
  backward : ∀ reader bytes, reader.Left bytes → (get reader).2.ok = true →
    fits (get reader).1 ∧ ∃ rest, bytes = put (get reader).1 ++ rest ∧ (get reader).2.Left rest
  sticky : ∀ reader, (get reader).2.ok = true → reader.ok = true
  data : ∀ reader, (get reader).2.data = reader.data

theorem inverse_fixed {A : Type} (width : Nat) (small : width < word) (encode : A → Nat)
    (decode : Nat → A) (bounded : ∀ value, encode value < 256 ^ width)
    (decoded : ∀ value, decode (encode value) = value)
    (encoded : ∀ number, number < 256 ^ width → encode (decode number) = number) :
    Inverse (fun reader => (decode (combine (reader.getRaw width).1), (reader.getRaw width).2))
      (fun value => split width (encode value)) (fun _ => True) := by
  constructor
  · intro reader value rest _ left
    have size := length_split width (encode value)
    have forward := getRaw_forward left
    rw [size] at forward
    exact ⟨by rw [forward.1, combine_split width _ (bounded value), decoded], forward.2⟩
  · intro reader bytes left ok
    obtain ⟨part, rest, halves, size, value, next⟩ := getRaw_backward left small ok
    have number := combine_lt part
    rw [size] at number
    have digits : split width (encode (decode (combine (reader.getRaw width).1))) = part := by
      rw [value, encoded _ number, ← size]
      exact split_combine part
    exact ⟨trivial, rest, by rw [digits]; exact halves, next⟩
  · intro reader ok
    exact getRaw_sticky width ok
  · intro reader
    exact getRaw_data reader width

theorem inverse_u8 : Inverse getU8 putU8 (fun _ => True) := by
  have fixed := inverse_fixed 1 (by decide) UInt8.toNat UInt8.ofNat (fun value => value.toNat_lt)
    (fun value => UInt8.ofNat_toNat) (fun number small => UInt8.toNat_ofNat_of_lt' small)
  have same : putU8 = fun value => split 1 value.toNat := by
    funext value
    simp [putU8, split]
  rw [same]
  exact fixed

theorem inverse_u32 : Inverse getU32 putU32 (fun _ => True) :=
  inverse_fixed 4 (by decide) UInt32.toNat UInt32.ofNat (fun value => value.toNat_lt)
    (fun value => UInt32.ofNat_toNat) (fun number small => UInt32.toNat_ofNat_of_lt' small)

theorem inverse_u64 : Inverse getU64 putU64 (fun _ => True) :=
  inverse_fixed 8 (by decide) UInt64.toNat UInt64.ofNat (fun value => value.toNat_lt)
    (fun value => UInt64.ofNat_toNat) (fun number small => UInt64.toNat_ofNat_of_lt' small)

theorem inverse_i64 : Inverse getI64 putI64 (fun _ => True) := by
  have fixed := inverse_u64
  constructor
  · intro reader value rest _ left
    have forward := fixed.forward reader value.toUInt64 rest trivial left
    exact ⟨by simp [getI64, forward.1], forward.2⟩
  · intro reader bytes left ok
    obtain ⟨_, rest, halves, next⟩ := fixed.backward reader bytes left ok
    exact ⟨trivial, rest, by simpa [getI64, putI64] using halves, next⟩
  · exact fixed.sticky
  · exact fixed.data

theorem inverse_string : Inverse getString putString (fun value => value.length < 2 ^ 32) := by
  constructor
  · intro reader value rest fits left
    rw [putString, List.append_assoc] at left
    obtain ⟨length, next⟩ := inverse_u32.forward reader _ _ trivial left
    have size : (getU32 reader).1.toNat = value.length := by
      rw [length]
      exact UInt32.toNat_ofNat_of_lt' fits
    have body := getRaw_forward next
    rw [← size] at body
    exact body
  · intro reader bytes left ok
    have first : (getU32 reader).2.ok = true := getRaw_sticky _ ok
    obtain ⟨_, tail, halves, next⟩ := inverse_u32.backward reader bytes left first
    have small : (getU32 reader).1.toNat < word :=
      lt_trans (getU32 reader).1.toNat_lt (by decide)
    obtain ⟨part, rest, split, size, value, after⟩ := getRaw_backward next small ok
    have isPart : (getString reader).1 = part := value
    have prefix_ : UInt32.ofNat part.length = (getU32 reader).1 := by
      rw [size]
      exact UInt32.ofNat_toNat
    have fits : part.length < 2 ^ 32 := by
      rw [size]
      exact (getU32 reader).1.toNat_lt
    exact ⟨by rw [isPart]; exact fits, rest, by
      rw [isPart, putString, prefix_, List.append_assoc, ← split]
      exact halves, after⟩
  · intro reader ok
    exact inverse_u32.sticky reader (getRaw_sticky _ ok)
  · intro reader
    exact (getRaw_data _ _).trans (inverse_u32.data reader)

section Combine

def getBoth {A B : Type} (getA : ByteReader → A × ByteReader) (getB : ByteReader → B × ByteReader)
    (reader : ByteReader) : (A × B) × ByteReader :=
  (((getA reader).1, (getB (getA reader).2).1), (getB (getA reader).2).2)

def putBoth {A B : Type} (putA : A → Bytes) (putB : B → Bytes) (pair : A × B) : Bytes :=
  putA pair.1 ++ putB pair.2

variable {A B : Type} {getA : ByteReader → A × ByteReader} {getB : ByteReader → B × ByteReader}
  {putA : A → Bytes} {putB : B → Bytes}

theorem Inverse.both (first : Inverse getA putA (fun _ => True))
    (second : Inverse getB putB (fun _ => True)) :
    Inverse (getBoth getA getB) (putBoth putA putB) (fun _ => True) := by
  constructor
  · intro reader pair rest _ left
    rw [putBoth, List.append_assoc] at left
    have one := first.forward reader pair.1 _ trivial left
    have other := second.forward _ pair.2 _ trivial one.2
    exact ⟨Prod.ext one.1 other.1, other.2⟩
  · intro reader bytes left ok
    have earlier := second.sticky _ ok
    obtain ⟨_, tail, split, next⟩ := first.backward reader bytes left earlier
    obtain ⟨_, rest, split', final⟩ := second.backward _ tail next ok
    refine ⟨trivial, rest, ?_, final⟩
    calc bytes = putA (getA reader).1 ++ tail := split
      _ = putA (getA reader).1 ++ (putB (getB (getA reader).2).1 ++ rest) := by rw [← split']
      _ = putBoth putA putB (getBoth getA getB reader).1 ++ rest := (List.append_assoc _ _ _).symm
  · intro reader ok
    exact first.sticky reader (second.sticky _ ok)
  · intro reader
    exact (second.data _).trans (first.data reader)

theorem Inverse.record (inverse : Inverse getA putA (fun _ => True)) (build : A → B) (parts : B → A)
    (read : ∀ reader, getB reader = (build (getA reader).1, (getA reader).2))
    (written : ∀ value, putB value = putA (parts value))
    (built : ∀ value, build (parts value) = value) (taken : ∀ value, parts (build value) = value) :
    Inverse getB putB (fun _ => True) := by
  constructor
  · intro reader value rest _ left
    rw [written] at left
    have fields := inverse.forward reader (parts value) rest trivial left
    rw [read, fields.1, built]
    exact ⟨rfl, fields.2⟩
  · intro reader bytes left ok
    rw [read] at ok ⊢
    obtain ⟨_, rest, split, next⟩ := inverse.backward reader bytes left ok
    exact ⟨trivial, rest, by rw [written, taken]; exact split, next⟩
  · intro reader ok
    rw [read] at ok
    exact inverse.sticky reader ok
  · intro reader
    rw [read]
    exact inverse.data reader

end Combine

end VectorVault.Snapshot
