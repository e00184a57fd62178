import Mathlib.RingTheory.AdjoinRoot
import Mathlib.Algebra.CharP.Two
import Mathlib.Algebra.Field.ZMod

/-! Bit strings as polynomials over the field of two elements. -/

namespace VectorVault.BitPolynomial

open Polynomial

noncomputable section

def ofBits (width : Nat) (bit : Nat → Bool) : (ZMod 2)[X] :=
  ∑ i ∈ Finset.range width, if bit i then X ^ i else 0

def ofMessage : List Bool → (ZMod 2)[X]
  | [] => 0
  | bit :: rest => (if bit then X ^ rest.length else 0) + ofMessage rest

theorem coeff_ofBits (width : Nat) (bit : Nat → Bool) (i : Nat) :
    (ofBits width bit).coeff i = if i < width ∧ bit i = true then 1 else 0 := by
  have term : ∀ j, (if bit j then X ^ j else (0 : (ZMod 2)[X])).coeff i =
      if i = j then (if bit j then 1 else 0) else 0 := by
    intro j
    cases bit j with
    | true => simp [coeff_X_pow]
    | false => simp
  rw [ofBits, finsetSum_coeff, Finset.sum_congr rfl (fun j _ => term j), Finset.sum_ite_eq]
  simp only [Finset.mem_range]
  rw [ite_and]

theorem degree_ofBits_lt (width : Nat) (bit : Nat → Bool) : (ofBits width bit).degree < width := by
  rw [degree_lt_iff_coeff_zero]
  intro i beyond
  rw [coeff_ofBits, if_neg (fun both => absurd both.1 (not_lt.mpr beyond))]

theorem ofBits_congr {width : Nat} {first second : Nat → Bool}
    (same : ∀ i < width, first i = second i) : ofBits width first = ofBits width second := by
  apply Finset.sum_congr rfl
  intro i member
  rw [same i (Finset.mem_range.mp member)]

theorem ofBits_add (low high : Nat) (bit : Nat → Bool) :
    ofBits (low + high) bit = ofBits low bit + X ^ low * ofBits high (fun i => bit (low + i)) := by
  rw [ofBits, Finset.sum_range_add, ofBits, ofBits, Finset.mul_sum]
  congr 1
  apply Finset.sum_congr rfl
  intro i _
  cases bit (low + i) with
  | true => simp only [if_true, pow_add]
  | false => simp

theorem ofBits_moved (low high : Nat) (bit : Nat → Bool) :
    ofBits (low + high) (fun i => decide (low ≤ i) && bit (i - low)) =
      X ^ low * ofBits high bit := by
  have clear : ofBits low (fun i => decide (low ≤ i) && bit (i - low)) = 0 := by
    apply Finset.sum_eq_zero
    intro i member
    simp [Finset.mem_range.mp member]
  rw [ofBits_add, clear, zero_add]
  simp

theorem ofBits_xor (width : Nat) (first second : Nat → Bool) :
    ofBits width (fun i => first i ^^ second i) = ofBits width first + ofBits width second := by
  ext i
  rw [coeff_add, coeff_ofBits, coeff_ofBits, coeff_ofBits]
  by_cases inside : i < width
  · cases first i with
    | true =>
        cases second i with
        | true => simp [inside, CharTwo.add_self_eq_zero]
        | false => simp [inside]
    | false => simp
  · simp [inside]

theorem bit_eq_of_ofBits {width : Nat} {first second : Nat → Bool}
    (same : ofBits width first = ofBits width second) : ∀ i < width, first i = second i := by
  intro i inside
  have coefficients := congrArg (fun p => p.coeff i) same
  simp only [coeff_ofBits, inside, true_and] at coefficients
  cases isFirst : first i with
  | true =>
      cases isSecond : second i with
      | true => rfl
      | false => simp [isFirst, isSecond] at coefficients
  | false =>
      cases isSecond : second i with
      | true => simp [isFirst, isSecond] at coefficients
      | false => rfl

theorem ofBits_shift (width : Nat) (register feedback : Nat → Bool) :
    ofBits (width + 1) (fun i => (decide (1 ≤ i) && register (i - 1)) ^^
        (register width && feedback i)) =
      X * ofBits (width + 1) register +
        if register width then X ^ (width + 1) + ofBits (width + 1) feedback else 0 := by
  have moved : ofBits (width + 1) (fun i => decide (1 ≤ i) && register (i - 1)) =
      X * ofBits (width + 1) register + if register width then X ^ (width + 1) else 0 := by
    ext i
    have top : (if register width then X ^ (width + 1) else (0 : (ZMod 2)[X])).coeff i =
        if i = width + 1 ∧ register width = true then 1 else 0 := by
      cases register width with
      | true => simp [coeff_X_pow]
      | false => simp
    rw [coeff_add, top, coeff_ofBits]
    cases i with
    | zero => simp
    | succ i =>
        rw [coeff_X_mul, coeff_ofBits]
        by_cases last : i = width
        · cases high : register width with
          | true => simp [last, high, CharTwo.add_self_eq_zero]
          | false => simp [last, high]
        · have sooner : i < width ↔ i < width + 1 := by omega
          simp [last, sooner]
  have fed : ofBits (width + 1) (fun i => register width && feedback i) =
      if register width then ofBits (width + 1) feedback else 0 := by
    cases register width with
    | true => simp
    | false => simp [ofBits]
  rw [ofBits_xor, moved, fed, add_assoc]
  cases register width with
  | true => rfl
  | false => rfl

theorem ofMessage_bits (width : Nat) (bit : Nat → Bool) :
    ofMessage ((List.range width).map (fun i => bit (width - 1 - i))) = ofBits width bit := by
  induction width with
  | zero => rfl
  | succ width ih =>
      have later : (List.range width).map ((fun i => bit (width + 1 - 1 - i)) ∘ Nat.succ) =
          (List.range width).map (fun i => bit (width - 1 - i)) := by
        apply List.map_congr_left
        intro i _
        rw [Function.comp_apply, show width + 1 - 1 - i.succ = width - 1 - i by omega]
      rw [List.range_succ_eq_map, List.map_cons, List.map_map, later, ofMessage, ih,
        List.length_map, List.length_range, ofBits, ofBits, Finset.sum_range_succ, add_comm]
      rfl

theorem eq_modByMonic {generator short whole : (ZMod 2)[X]} (monic : generator.Monic)
    (below : short.degree < generator.degree)
    (congruent : AdjoinRoot.mk generator short = AdjoinRoot.mk generator whole) :
    short = whole %ₘ generator := by
  calc short = short %ₘ generator := ((modByMonic_eq_self_iff monic).mpr below).symm
    _ = AdjoinRoot.modByMonicHom monic (AdjoinRoot.mk generator short) :=
        (AdjoinRoot.modByMonicHom_mk monic short).symm
    _ = AdjoinRoot.modByMonicHom monic (AdjoinRoot.mk generator whole) := by rw [congruent]
    _ = whole %ₘ generator := AdjoinRoot.modByMonicHom_mk monic whole

end

end VectorVault.BitPolynomial
