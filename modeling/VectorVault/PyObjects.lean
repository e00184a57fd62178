import VectorVault.Types
import VectorVault.Library.FloatWidths
import Mathlib.Data.List.TakeWhile

/-! Python objects and what the binding makes of them.

A vector comes from a sequence of numbers, metadata from a dict of strings to
scalars. A NumPy array is the sequence of its scalars. Text crosses as UTF-8. -/

namespace VectorVault.Python

open FloatWidths

/-- A Python object, as far as the binding tells objects apart. An `iterator` is
whatever can be iterated but is no sequence. -/
inductive PyObject where
  | none
  | bool (value : Bool)
  | int (value : Int)
  | float (value : F64)
  | complex (real imaginary : F64)
  | str (value : String)
  | bytes (value : Bytes)
  | list (items : List PyObject)
  | tuple (items : List PyObject)
  | dict (entries : List (PyObject × PyObject))
  | iterator (items : List PyObject)

/-- What a call throws, before it is translated to a Python exception. `castError` and
`decodeError` are the failures of a conversion of pybind11 and of the decoding of text. -/
inductive Raised where
  | typeError (message : Bytes)
  | castError
  | decodeError
  | core (category : ErrorCategory) (message : Bytes)
  deriving DecidableEq

def categoryName : ErrorCategory → Bytes
  | .nameConflict => text "NameConflict"
  | .invalidName => text "InvalidName"
  | .invalidDimensionality => text "InvalidDimensionality"
  | .invalidMetric => text "InvalidMetric"
  | .notFound => text "NotFound"
  | .dimensionMismatch => text "DimensionMismatch"
  | .invalidValue => text "InvalidValue"
  | .invalidIdentifier => text "InvalidIdentifier"
  | .invalidParameter => text "InvalidParameter"
  | .invalidArgument => text "InvalidArgument"
  | .undefinedDistance => text "UndefinedDistance"
  | .allocationFailure => text "AllocationFailure"
  | .writeFailure => text "WriteFailure"
  | .snapshotNotFound => text "SnapshotNotFound"
  | .unsupportedVersion => text "UnsupportedVersion"
  | .corruption => text "Corruption"
  | .deletionFailed => text "DeletionFailed"

def message (error : Error) : Bytes := categoryName error.category ++ text ": " ++ error.cause

def raiseCore (category : ErrorCategory) (cause : Bytes) : Raised :=
  .core category (categoryName category ++ text ": " ++ cause)

def unwrap {A : Type} : Result A → Except Raised A
  | .ok value => .ok value
  | .error error => .error (.core error.category (message error))

section Text

inductive PyText where
  | str (value : String)
  | bytes (value : Bytes)

def encode (value : String) : Bytes := value.toByteArray.data.toList

def decode (bytes : Bytes) : Except Raised String :=
  match String.fromUTF8? ⟨bytes.toArray⟩ with
  | some value => .ok value
  | none => .error .decodeError

/-- Text becomes its UTF-8, bytes stay as they are. -/
def PyText.cast : PyText → Bytes
  | .str value => encode value
  | .bytes value => value

@[simp] theorem decode_encode (value : String) : decode (encode value) = .ok value := by
  have same : ByteArray.mk (encode value).toArray = value.toByteArray := by
    rw [encode, Array.toArray_toList]
  have known : String.fromUTF8? value.toByteArray = some value := by
    rw [String.fromUTF8?, dif_pos value.isValidUTF8]
    rfl
  rw [decode, same, known]

theorem encode_decode {bytes : Bytes} {value : String} (decoded : decode bytes = .ok value) :
    encode value = bytes := by
  unfold decode String.fromUTF8? at decoded
  split at decoded
  · next same =>
      split at same
      · rw [Option.some.injEq] at same
        cases decoded
        rw [← same]
        rfl
      · cases same
  · cases decoded

theorem encode_injective : Function.Injective encode := by
  intro first second same
  have decoded := decode_encode first
  rw [same, decode_encode, Except.ok.injEq] at decoded
  exact decoded.symm

end Text

section Exceptions

inductive ExceptionType where
  | typeError
  | nameConflictError
  | invalidNameError
  | invalidDimensionalityError
  | invalidMetricError
  | deletionFailedError
  | notFoundError
  | dimensionMismatchError
  | invalidValueError
  | invalidIdentifierError
  | invalidParameterError
  | invalidArgumentError
  | undefinedDistanceError
  | allocationFailureError
  | writeFailureError
  | snapshotNotFoundError
  | unsupportedVersionError
  | corruptionError
  deriving DecidableEq

def exceptionMap : ErrorCategory → ExceptionType
  | .nameConflict => .nameConflictError
  | .invalidName => .invalidNameError
  | .invalidDimensionality => .invalidDimensionalityError
  | .invalidMetric => .invalidMetricError
  | .deletionFailed => .deletionFailedError
  | .notFound => .notFoundError
  | .dimensionMismatch => .dimensionMismatchError
  | .invalidValue => .invalidValueError
  | .invalidIdentifier => .invalidIdentifierError
  | .invalidParameter => .invalidParameterError
  | .invalidArgument => .invalidArgumentError
  | .undefinedDistance => .undefinedDistanceError
  | .allocationFailure => .allocationFailureError
  | .writeFailure => .writeFailureError
  | .snapshotNotFound => .snapshotNotFoundError
  | .unsupportedVersion => .unsupportedVersionError
  | .corruption => .corruptionError

theorem exceptionMap_injective : Function.Injective exceptionMap := by
  intro first second same
  cases first <;> cases second <;> first | rfl | cases same

/-- What a program gets to see of what a call throws. The text of a `RuntimeError` is
pybind11's own. -/
inductive PyException where
  | raised (type : ExceptionType) (message : String)
  | runtimeError
  | unicodeDecodeError
  deriving DecidableEq

/-- `PyErr_SetString`: the message is a C string, and has to be UTF-8. -/
def setString (type : ExceptionType) (message : Bytes) : PyException :=
  match decode (message.takeWhile (fun byte => byte ≠ 0)) with
  | .ok value => .raised type value
  | .error _ => .unicodeDecodeError

def translate : Raised → PyException
  | .typeError message => setString .typeError message
  | .castError => .runtimeError
  | .decodeError => .unicodeDecodeError
  | .core category message => setString (exceptionMap category) message

theorem setString_encode (type : ExceptionType) {value : String}
    (whole : ∀ byte ∈ encode value, byte ≠ 0) :
    setString type (encode value) = .raised type value := by
  have all : (encode value).takeWhile (fun byte => byte ≠ 0) = encode value := by
    apply List.takeWhile_eq_self_iff.mpr
    intro byte member
    exact decide_eq_true (whole byte member)
  rw [setString, all, decode_encode]

end Exceptions

section Vectors

def isNumeric : PyObject → Bool
  | .bool _ => true
  | .int _ => true
  | .float _ => true
  | _ => false

def asDouble : PyObject → Option F64
  | .bool value => ofInt (if value then 1 else 0)
  | .int value => ofInt value
  | .float value => some value
  | _ => none

def sequenceItems : PyObject → Option (List PyObject)
  | .list items => some items
  | .tuple items => some items
  | .str value => some (value.toList.map (fun char => .str (String.singleton char)))
  | .bytes value => some (value.map (fun byte => .int byte.toNat))
  | _ => none

def notANumber (index : Nat) : Raised :=
  .typeError (text "vector element at index " ++ decimal index ++ text " is not a number")

def toComponents : Nat → List PyObject → Except Raised (List F32)
  | _, [] => return []
  | index, item :: rest =>
      if isNumeric item then
        match asDouble item with
        | some value => do
            let out ← toComponents (index + 1) rest
            return narrow value :: out
        | none => .error (notANumber index)
      else .error (notANumber index)

def toFloatVector (object : PyObject) : Except Raised (List F32) :=
  match sequenceItems object with
  | some items => toComponents 0 items
  | none => .error (.typeError (text "vector must be a sequence of numbers"))

def fromFloatVector (vector : List F32) : PyObject :=
  .list (vector.map (fun component => .float (widen component)))

end Vectors

section Metadata

/-- The value of a key; a `bool` is tried before an `int`. -/
def toValue (key : Bytes) : PyObject → Except Raised MetadataValue
  | .bool value => return .bool value
  | .int value =>
      if -2 ^ 63 ≤ value ∧ value < 2 ^ 63 then return .int64 (Int64.ofInt value)
      else .error .castError
  | .float value => return .double value
  | .str value => return .string (encode value)
  | _ => .error (.typeError
      (text "metadata value for key '" ++ key ++ text "' must be str, int, float, or bool"))

def toMetadata : List (PyObject × PyObject) → Metadata → Except Raised Metadata
  | [], metadata => return metadata
  | (.str key, value) :: rest, metadata => do
      let converted ← toValue (encode key) value
      toMetadata rest (metadata.insert (encode key) converted)
  | _ :: _, _ => .error (.typeError (text "metadata keys must be strings"))

def fromValue : MetadataValue → Except Raised PyObject
  | .bool value => return .bool value
  | .int64 value => return .int value.toInt
  | .double value => return .float value
  | .string value => do
      let decoded ← decode value
      return .str decoded

def fromEntries : List (Bytes × MetadataValue) → Except Raised (List (PyObject × PyObject))
  | [] => return []
  | (key, value) :: rest => do
      let decoded ← decode key
      let object ← fromValue value
      let entries ← fromEntries rest
      return (.str decoded, object) :: entries

def fromMetadata (metadata : Metadata) : Except Raised PyObject := do
  let entries ← fromEntries metadata.entries
  return .dict entries

/-- An optional `metadata` argument; `refused` is thrown for what is neither a dict
nor `None`. -/
def toOptionalMetadata (refused : Raised) : PyObject → Except Raised (Option Metadata)
  | .none => return none
  | .dict entries => do
      let metadata ← toMetadata entries OrderedMap.empty
      return some metadata
  | _ => .error refused

def fromOptionalMetadata : Option Metadata → Except Raised PyObject
  | none => return .none
  | some metadata => fromMetadata metadata

end Metadata

end VectorVault.Python
