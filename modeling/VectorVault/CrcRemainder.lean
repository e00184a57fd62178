import VectorVault.CrcWindows
import VectorVault.Library.BitPolynomial

/-! The checksum is a remainder of polynomials over the field of two elements.

A register is the polynomial of its bits, a message that of its bits from the
first to the last. Everything is computed modulo the generator, where a shift of
the register multiplies by the indeterminate. -/

namespace VectorVault.Crc64

open Polynomial BitPolynomial

section Division

/-- The next bit of the message joins at the top, and the register is shifted. -/
def divideBit (crc : UInt64) (next : Bool) : UInt64 :=
  shiftBit (if next then crc ^^^ 0x8000000000000000 else crc)

def bitsOf (byte : UInt8) : List Bool :=
  (List.range 8).map (fun i => byte.toNat.testBit (8 - 1 - i))

def divide (bytes : Bytes) (crc : UInt64) : UInt64 := (bytes.flatMap bitsOf).foldl divideBit crc

theorem length_bits (bytes : Bytes) : (bytes.flatMap bitsOf).length = 8 * bytes.length := by
  induction bytes with
  | nil => rfl
  | cons byte rest ih =>
      have one : (bitsOf byte).length = 8 := rfl
      rw [List.flatMap_cons, List.length_append, one, ih, List.length_cons]
      ring

end Division

noncomputable section

def toPolynomial (crc : UInt64) : (ZMod 2)[X] := ofBits 64 (bit crc)

def message (bytes : Bytes) : (ZMod 2)[X] := ofMessage (bytes.flatMap bitsOf)

/-- The polynomial with its leading power, which the constant leaves out. -/
def generator : (ZMod 2)[X] := X ^ 64 + toPolynomial poly

theorem generator_monic : generator.Monic := monic_X_pow_add (degree_ofBits_lt 64 (bit poly))

theorem degree_lt_generator (crc : UInt64) : (toPolynomial crc).degree < generator.degree := by
  have lower : (toPolynomial poly).degree < (X ^ 64 : (ZMod 2)[X]).degree := by
    rw [degree_X_pow]
    exact degree_ofBits_lt 64 (bit poly)
  rw [generator, degree_add_eq_left_of_degree_lt lower, degree_X_pow]
  exact degree_ofBits_lt 64 (bit crc)

def residue (crc : UInt64) : AdjoinRoot generator := AdjoinRoot.mk generator (toPolynomial crc)

theorem residue_xor (first second : UInt64) :
    residue (first ^^^ second) = residue first + residue second := by
  have sum : toPolynomial (first ^^^ second) = toPolynomial first + toPolynomial second :=
    (ofBits_congr (fun i _ => bit_xor first second i)).trans (ofBits_xor 64 _ _)
  rw [residue, sum, map_add]
  rfl

theorem residue_shiftBit (crc : UInt64) :
    residue (shiftBit crc) = AdjoinRoot.root generator * residue crc := by
  have shifted : toPolynomial (shiftBit crc) =
      X * toPolynomial crc + if bit crc 63 then generator else 0 :=
    (ofBits_congr (fun i inside => bit_shiftBit crc inside)).trans
      (ofBits_shift 63 (bit crc) (bit poly))
  have whole : AdjoinRoot.mk generator (if bit crc 63 then generator else 0) = 0 := by
    cases bit crc 63 with
    | true => exact AdjoinRoot.mk_self
    | false => exact map_zero _
  rw [residue, shifted, map_add, map_mul, whole, add_zero, AdjoinRoot.mk_X]
  rfl

theorem residue_injective {first second : UInt64} (same : residue first = residue second) :
    first = second := by
  have equal : toPolynomial first = toPolynomial second := by
    calc toPolynomial first = toPolynomial second %ₘ generator :=
          eq_modByMonic generator_monic (degree_lt_generator first) same
      _ = toPolynomial second :=
          (modByMonic_eq_self_iff generator_monic).mpr (degree_lt_generator second)
  exact bit_ext (bit_eq_of_ofBits equal)

section Bits

theorem residue_divideBit (crc : UInt64) (next : Bool) :
    residue (divideBit crc next) = AdjoinRoot.root generator * residue crc +
      AdjoinRoot.root generator ^ 64 * AdjoinRoot.mk generator (if next then 1 else 0) := by
  have top : residue 0x8000000000000000 = AdjoinRoot.root generator ^ 63 := by
    have single : toPolynomial 0x8000000000000000 = X ^ 63 := by
      have moved := ofBits_moved 63 1 (fun _ => true)
      have one : ofBits 1 (fun _ => true) = 1 := by simp [ofBits]
      rw [one, mul_one] at moved
      rw [← moved]
      apply ofBits_congr
      intro i inside
      have power : bit 0x8000000000000000 i = decide (63 = i) := by
        rw [bit, show (0x8000000000000000 : UInt64).toNat = 2 ^ 63 from rfl, Nat.testBit_two_pow]
      rw [power, Bool.and_true]
      apply decide_eq_decide.mpr
      omega
    rw [residue, single, map_pow, AdjoinRoot.mk_X]
  cases next with
  | true =>
      rw [divideBit, if_pos rfl, residue_shiftBit, residue_xor, top, if_pos rfl, map_one]
      ring
  | false =>
      rw [divideBit, if_neg (by decide), residue_shiftBit, if_neg (by decide), map_zero, mul_zero,
        add_zero]

/-- Induction over the bits left. -/
theorem residue_divideBits (bits : List Bool) (crc : UInt64) :
    residue (bits.foldl divideBit crc) =
      AdjoinRoot.root generator ^ bits.length * residue crc +
        AdjoinRoot.root generator ^ 64 * AdjoinRoot.mk generator (ofMessage bits) := by
  induction bits generalizing crc with
  | nil => simp [ofMessage]
  | cons next rest ih =>
      have head : AdjoinRoot.mk generator (if next then X ^ rest.length else 0) =
          AdjoinRoot.root generator ^ rest.length *
            AdjoinRoot.mk generator (if next then 1 else 0) := by
        cases next with
        | true => simp
        | false => simp
      rw [List.foldl_cons, ih, residue_divideBit, ofMessage, map_add, head, List.length_cons]
      ring

end Bits

section Table

def ofByte (byte : UInt8) : (ZMod 2)[X] := ofBits 8 (fun i => byte.toNat.testBit i)

theorem ofMessage_bitsOf (byte : UInt8) : ofMessage (bitsOf byte) = ofByte byte :=
  ofMessage_bits 8 (fun i => byte.toNat.testBit i)

theorem residue_shifts (rounds : List Nat) (crc : UInt64) :
    residue (rounds.foldl (fun crc _ => shiftBit crc) crc) =
      AdjoinRoot.root generator ^ rounds.length * residue crc := by
  induction rounds generalizing crc with
  | nil => simp
  | cons round rest ih =>
      rw [List.foldl_cons, ih, residue_shiftBit, List.length_cons]
      ring

theorem residue_tableEntry (byte : UInt8) :
    residue (tableEntry byte) =
      AdjoinRoot.root generator ^ 64 * AdjoinRoot.mk generator (ofByte byte) := by
  have placed : toPolynomial (byte.toUInt64 <<< 56) = X ^ 56 * ofByte byte := by
    have moved := ofBits_moved 56 8 (fun i => byte.toNat.testBit i)
    rw [ofByte, ← moved]
    apply ofBits_congr
    intro i inside
    exact @bit_shiftLeft byte.toUInt64 56 i (by decide) inside
  have shifted := residue_shifts (List.range 8) (byte.toUInt64 <<< 56)
  rw [← tableEntry] at shifted
  rw [shifted, residue, placed, map_mul, map_pow, AdjoinRoot.mk_X, List.length_range]
  ring

theorem two_eq_zero : (2 : AdjoinRoot generator) = 0 := by
  rw [← map_ofNat (AdjoinRoot.of generator) 2, show (2 : ZMod 2) = 0 from rfl, map_zero]

theorem residue_shiftByte (crc : UInt64) :
    residue (crc <<< 8) = AdjoinRoot.root generator ^ 8 * residue crc +
      AdjoinRoot.root generator ^ 64 *
        AdjoinRoot.mk generator (ofByte (crc >>> 56).toUInt8) := by
  have moved : toPolynomial (crc <<< 8) = X ^ 8 * ofBits 56 (bit crc) := by
    rw [← ofBits_moved 8 56 (bit crc)]
    apply ofBits_congr
    intro i inside
    exact @bit_shiftLeft crc 8 i (by decide) inside
  have halves : toPolynomial crc =
      ofBits 56 (bit crc) + X ^ 56 * ofByte (crc >>> 56).toUInt8 := by
    have top : ofBits 8 (fun i => bit crc (56 + i)) = ofByte (crc >>> 56).toUInt8 := by
      apply ofBits_congr
      intro i less
      rw [Nat.add_comm]
      exact bit_top crc less
    rw [← top]
    exact ofBits_add 56 8 (bit crc)
  rw [residue, residue, moved, halves]
  simp only [map_add, map_mul, map_pow, AdjoinRoot.mk_X]
  linear_combination -(AdjoinRoot.root generator ^ 64 *
    AdjoinRoot.mk generator (ofByte (crc >>> 56).toUInt8)) * two_eq_zero

theorem step_eq_divide (crc : UInt64) (byte : UInt8) :
    step crc byte = (bitsOf byte).foldl divideBit crc := by
  have chosen : ofByte (selector crc byte) = ofByte (crc >>> 56).toUInt8 + ofByte byte := by
    rw [ofByte, ofByte, ofByte, ← ofBits_xor]
    apply ofBits_congr
    intro i _
    rw [selector, UInt8.toNat_xor, Nat.testBit_xor]
  apply residue_injective
  rw [residue_divideBits, ofMessage_bitsOf, step_eq, residue_xor, residue_shiftByte,
    residue_tableEntry, chosen]
  have length : (bitsOf byte).length = 8 := rfl
  rw [length, map_add]
  linear_combination AdjoinRoot.root generator ^ 64 *
    AdjoinRoot.mk generator (ofByte (crc >>> 56).toUInt8) * two_eq_zero

end Table

/-- The checksum of every message from every register: the bit-by-bit division,
and the remainder of the register and the message by the generator. -/
theorem crc64Ecma_remainder (bytes : Bytes) (crc : UInt64) :
    crc64Ecma bytes crc = divide bytes crc ∧
      toPolynomial (crc64Ecma bytes crc) =
        (X ^ (8 * bytes.length) * toPolynomial crc + X ^ 64 * message bytes) %ₘ generator ∧
      toPolynomial (crc64Ecma bytes 0) = (message bytes * X ^ 64) %ₘ generator := by
  have divided : ∀ start, crc64Ecma bytes start = divide bytes start := by
    intro start
    rw [crc64Ecma, divide, List.foldl_flatMap]
    congr 1
    funext register byte
    exact step_eq_divide register byte
  have remainder : ∀ start, toPolynomial (crc64Ecma bytes start) =
      (X ^ (8 * bytes.length) * toPolynomial start + X ^ 64 * message bytes) %ₘ generator := by
    intro start
    apply eq_modByMonic generator_monic (degree_lt_generator _)
    have whole := residue_divideBits (bytes.flatMap bitsOf) start
    rw [length_bits, ← divide, ← divided] at whole
    rw [map_add, map_mul, map_mul, map_pow, map_pow, AdjoinRoot.mk_X]
    exact whole
  have zero : toPolynomial 0 = 0 := by
    unfold toPolynomial ofBits
    apply Finset.sum_eq_zero
    intro i _
    simp [bit]
  refine ⟨divided crc, remainder crc, ?_⟩
  have fresh := remainder 0
  rw [zero, mul_zero, zero_add, mul_comm] at fresh
  exact fresh

/-- The check value of the parameters, over the digits from 1 to 9. -/
example : crc64Ecma (text "123456789") 0 = 0x6C40DF5F0B497347 := by decide +kernel

end

end VectorVault.Crc64
