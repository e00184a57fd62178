import VectorVault.Library.OrderedMap
import VectorVault.Library.FloatOrder

/-! The shared data model: identifiers, metadata, configuration and errors.

Strings and buffers are byte lists, floats are their raw bits, machine words
are fixed-width. Sizes and counters are naturals; where the code's 64-bit
arithmetic can wrap, the wrap is written out modulo `word`. -/

namespace VectorVault

instance byteLinearOrder : LinearOrder UInt8 where
  le_refl := UInt8.le_refl
  le_trans _ _ _ := UInt8.le_trans
  lt_iff_le_not_ge := by
    intro first second
    simp only [UInt8.le_iff_toNat_le, UInt8.lt_iff_toNat_lt]
    omega
  le_antisymm _ _ := UInt8.le_antisymm
  le_total := UInt8.le_total
  toDecidableLE := inferInstance
  toDecidableEq := inferInstance
  toDecidableLT := inferInstance

abbrev Bytes := List UInt8

abbrev RecordId := Bytes

abbrev F32 := UInt32

abbrev F64 := UInt64

def F32.isFinite (value : F32) : Bool := (value >>> 23) &&& 0xFF != 0xFF

def word : Nat := 2 ^ 64

def text (literal : String) : Bytes := literal.toList.map (fun char => UInt8.ofNat char.toNat)

def decimal (value : Nat) : Bytes := text (toString value)

inductive DistanceMetric where
  | euclidean
  | cosine
  | dotProduct
  deriving DecidableEq, Repr

def DistanceMetric.toByte : DistanceMetric → UInt8
  | .euclidean => 0
  | .cosine => 1
  | .dotProduct => 2

/-- The enumerator of an underlying value, when it is one of the defined ones. -/
def DistanceMetric.ofByte? (value : UInt8) : Option DistanceMetric :=
  if value = 0 then some .euclidean
  else if value = 1 then some .cosine
  else if value = 2 then some .dotProduct
  else none

theorem DistanceMetric.ofByte_toByte (metric : DistanceMetric) :
    DistanceMetric.ofByte? metric.toByte = some metric := by
  cases metric <;> rfl

inductive IndexType where
  | none
  | hnsw
  | ivf
  deriving DecidableEq, Repr

def IndexType.toByte : IndexType → UInt8
  | .none => 0
  | .hnsw => 1
  | .ivf => 2

def IndexType.ofByte? (value : UInt8) : Option IndexType :=
  if value = 0 then some .none
  else if value = 1 then some .hnsw
  else if value = 2 then some .ivf
  else Option.none

theorem IndexType.ofByte_toByte (type : IndexType) :
    IndexType.ofByte? type.toByte = some type := by
  cases type <;> rfl

inductive MetadataValue where
  | string (value : Bytes)
  | int64 (value : Int64)
  | double (value : F64)
  | bool (value : Bool)
  deriving DecidableEq

abbrev Metadata := OrderedMap Bytes MetadataValue

inductive ErrorCategory where
  | nameConflict
  | invalidName
  | invalidDimensionality
  | invalidMetric
  | notFound
  | dimensionMismatch
  | invalidValue
  | invalidIdentifier
  | invalidParameter
  | invalidArgument
  | undefinedDistance
  | allocationFailure
  | writeFailure
  | snapshotNotFound
  | unsupportedVersion
  | corruption
  | deletionFailed
  deriving DecidableEq, Repr

structure Error where
  category : ErrorCategory
  cause : Bytes
  deriving DecidableEq, Repr

abbrev Result (A : Type) := Except Error A

abbrev Status := Result Unit

/-- What the C++ leaves undefined: a container access past its end, or a loop
that does not come to its exit. -/
inductive Fault where
  | outOfRange
  | diverged
  deriving DecidableEq, Repr

abbrev Run (A : Type) := Except Fault A

theorem bind_ok {E A B : Type} {first : Except E A} {next : A → Except E B} {result : B}
    (done : first >>= next = .ok result) : ∃ middle, first = .ok middle ∧ next middle = .ok result := by
  cases first with
  | error reason => cases done
  | ok middle => exact ⟨middle, rfl, done⟩

theorem mapM_eq {A B : Type} {f : A → Run B} {g : A → B} (items : List A)
    (computed : ∀ item ∈ items, f item = .ok (g item)) : items.mapM f = .ok (items.map g) := by
  induction items with
  | nil => rfl
  | cons head tail ih =>
      have rest := ih (fun item member => computed item (List.mem_cons_of_mem _ member))
      rw [List.mapM_cons, computed head List.mem_cons_self, rest]
      rfl

theorem ok_of_isOk {E A : Type} {outcome : Except E A} (fine : outcome.isOk = true) :
    ∃ result, outcome = .ok result := by
  cases outcome with
  | error reason => cases fine
  | ok result => exact ⟨result, rfl⟩

theorem ok_of_any {E A : Type} {outcome : Except E A} {holds : A → Bool}
    (told : outcome.toOption.any holds = true) :
    ∃ result, outcome = .ok result ∧ holds result = true := by
  cases outcome with
  | error reason => cases told
  | ok result => exact ⟨result, rfl, told⟩

theorem eq_ok_getD {E A : Type} {outcome : Except E A} (fine : outcome.isOk = true) (default : A) :
    outcome = .ok (outcome.toOption.getD default) := by
  cases outcome with
  | error reason => cases fine
  | ok result => rfl

def access {A : Type} (items : List A) (index : Nat) : Run A :=
  match items[index]? with
  | some item => .ok item
  | none => .error .outOfRange

/-- An address. Arena and mapping are disjoint, so an address names the one it
lies in and the byte offset from its base. -/
inductive Pointer where
  | null
  | arena (offset : Nat)
  | mapped (offset : Nat)
  deriving DecidableEq, Repr

structure Block where
  data : Pointer
  size : Nat
  deriving DecidableEq, Repr

structure CollectionConfig where
  name : Bytes
  dimensionality : UInt32
  metric : DistanceMetric
  deriving DecidableEq

structure RecordSlot where
  vectorBlock : Block
  metadata : Option Metadata

structure RecordInput where
  id : RecordId
  vector : List F32
  metadata : Option Metadata

structure RecordView where
  vector : List F32
  metadata : Option Metadata

structure IndexParams where
  m : UInt32 := 16
  efConstruction : UInt32 := 200
  nlist : UInt32 := 0
  seed : UInt64 := 0x9E3779B97F4A7C15

structure QueryParams where
  efSearch : UInt32 := 50
  nprobe : UInt32 := 1

structure Candidate (D : Type) where
  id : RecordId
  distance : D
  deriving DecidableEq

structure Neighbor (D : Type) where
  id : RecordId
  distance : D
  deriving DecidableEq

end VectorVault
