import Mathlib.Data.Nat.Size
import Mathlib.Tactic

/-! Binary floating-point formats of different widths.

A magnitude is an exponent field above a fraction field, read as one number: its
code. Values are counted in units of the smallest positive value of a format, so
they are natural numbers. Conversion rounds to the nearest value, ties to even. -/

namespace VectorVault.FloatWidths

section Rounding

/-- How many times `2 ^ shift` a number is, to the nearest, ties to even. -/
def roundEven (number shift : Nat) : Nat :=
  if 2 * (number % 2 ^ shift) < 2 ^ shift ∨
      2 * (number % 2 ^ shift) = 2 ^ shift ∧ number / 2 ^ shift % 2 = 0 then
    number / 2 ^ shift
  else number / 2 ^ shift + 1

variable (number shift : Nat)

theorem roundEven_cases :
    roundEven number shift = number / 2 ^ shift ∧ 2 * (number % 2 ^ shift) ≤ 2 ^ shift ∨
      roundEven number shift = number / 2 ^ shift + 1 ∧ 2 ^ shift ≤ 2 * (number % 2 ^ shift) := by
  unfold roundEven
  split
  · left
    omega
  · right
    omega

theorem roundEven_mul : roundEven (number * 2 ^ shift) shift = number := by
  have positive : 0 < 2 ^ shift := Nat.two_pow_pos shift
  rw [roundEven, Nat.mul_mod_left, Nat.mul_div_cancel _ positive, if_pos (Or.inl positive)]

theorem roundEven_nearest (multiple : Nat) :
    ((roundEven number shift * 2 ^ shift : Int) - number).natAbs ≤
      ((multiple * 2 ^ shift : Int) - number).natAbs := by
  have whole := Nat.div_add_mod' number (2 ^ shift)
  have below := Nat.mod_lt number (Nat.two_pow_pos shift)
  have next : (number / 2 ^ shift + 1) * 2 ^ shift = number / 2 ^ shift * 2 ^ shift + 2 ^ shift :=
    Nat.succ_mul _ _
  have sides : multiple * 2 ^ shift ≤ number / 2 ^ shift * 2 ^ shift ∨
      (number / 2 ^ shift + 1) * 2 ^ shift ≤ multiple * 2 ^ shift := by
    rcases Nat.lt_or_ge (number / 2 ^ shift) multiple with above | atMost
    · exact Or.inr (Nat.mul_le_mul_right _ above)
    · exact Or.inl (Nat.mul_le_mul_right _ atMost)
  have casts : ∀ factor : Nat, (factor * 2 ^ shift : Int) = ((factor * 2 ^ shift : Nat) : Int) := by
    intro factor
    push_cast
    rfl
  rw [casts, casts]
  rcases roundEven_cases number shift with ⟨down, near⟩ | ⟨up, near⟩
  · rw [down]
    omega
  · rw [up]
    omega

theorem roundEven_le {bits : Nat} (small : number < 2 ^ (bits + shift)) :
    roundEven number shift ≤ 2 ^ bits := by
  have whole : number / 2 ^ shift < 2 ^ bits := by
    rw [Nat.div_lt_iff_lt_mul (Nat.two_pow_pos shift), ← Nat.pow_add]
    exact small
  rcases roundEven_cases number shift with ⟨down, _⟩ | ⟨up, _⟩
  · omega
  · omega

theorem le_roundEven {bits : Nat} (large : 2 ^ (bits + shift) ≤ number) :
    2 ^ bits ≤ roundEven number shift := by
  have whole : 2 ^ bits ≤ number / 2 ^ shift := by
    rw [Nat.le_div_iff_mul_le (Nat.two_pow_pos shift), ← Nat.pow_add]
    exact large
  rcases roundEven_cases number shift with ⟨down, _⟩ | ⟨up, _⟩
  · omega
  · omega

end Rounding

section Codes

variable (fraction : Nat)

/-- The value of a code, in units of the smallest positive one. -/
def magnitude (code : Nat) : Nat :=
  if code / 2 ^ fraction = 0 then code
  else (2 ^ fraction + code % 2 ^ fraction) * 2 ^ (code / 2 ^ fraction - 1)

/-- How far a number is shifted so that its leading bits fit in a significand, and
at least by `base`. -/
def shiftFor (base number : Nat) : Nat := max base (Nat.size number - (fraction + 1))

/-- The code of the value nearest to `number`, counted in units that are
`2 ^ base` times smaller. -/
def encode (base number : Nat) : Nat :=
  (shiftFor fraction base number - base) * 2 ^ fraction +
    roundEven number (shiftFor fraction base number)

/-- A significand shifted by `exponent`: with its leading bit, unless not shifted. -/
structure Shifted (significand exponent : Nat) : Prop where
  fits : significand ≤ 2 ^ (fraction + 1)
  leading : exponent = 0 ∨ 2 ^ fraction ≤ significand

variable {fraction}

theorem Shifted.magnitude {significand exponent : Nat}
    (shifted : Shifted fraction significand exponent) :
    magnitude fraction (exponent * 2 ^ fraction + significand) = significand * 2 ^ exponent := by
  have positive := Nat.two_pow_pos fraction
  have double : 2 ^ (fraction + 1) = 2 * 2 ^ fraction := by rw [Nat.pow_succ, Nat.mul_comm]
  have fits := shifted.fits
  have parts : (exponent * 2 ^ fraction + significand) / 2 ^ fraction =
        exponent + significand / 2 ^ fraction ∧
      (exponent * 2 ^ fraction + significand) % 2 ^ fraction = significand % 2 ^ fraction := by
    rw [Nat.add_comm, Nat.add_mul_div_right _ _ positive, Nat.add_mul_mod_self_right, Nat.add_comm]
    exact ⟨rfl, rfl⟩
  rw [FloatWidths.magnitude, parts.1, parts.2]
  rcases Nat.lt_or_ge significand (2 ^ fraction) with small | large
  · -- A value below the normal ones is its own code.
    have zero : exponent = 0 := shifted.leading.resolve_right (Nat.not_le.mpr small)
    rw [zero, Nat.div_eq_of_lt small, if_pos rfl]
    omega
  · rcases Nat.lt_or_ge significand (2 ^ (fraction + 1)) with normal | carried
    · have one : significand / 2 ^ fraction = 1 :=
        Nat.div_eq_of_lt_le (by omega) (by omega)
      have rest : significand % 2 ^ fraction = significand - 2 ^ fraction := by
        rw [Nat.mod_eq_sub_mod large, Nat.mod_eq_of_lt (by omega)]
      rw [one, rest, if_neg (by omega), Nat.add_sub_cancel, Nat.add_sub_of_le large]
    · have two : significand = 2 * 2 ^ fraction := by omega
      have twice : exponent + 2 - 1 = exponent + 1 := by omega
      rw [two, Nat.mul_div_cancel _ positive, Nat.mul_mod_left, if_neg (by omega), twice,
        Nat.add_zero, Nat.pow_succ]
      ring

theorem exists_shifted (fraction code : Nat) : ∃ significand exponent,
    significand < 2 ^ (fraction + 1) ∧ Shifted fraction significand exponent ∧
      code = exponent * 2 ^ fraction + significand := by
  have positive := Nat.two_pow_pos fraction
  have double : 2 ^ (fraction + 1) = 2 * 2 ^ fraction := by rw [Nat.pow_succ, Nat.mul_comm]
  have below := Nat.mod_lt code positive
  have whole := Nat.div_add_mod' code (2 ^ fraction)
  rcases Nat.eq_zero_or_pos (code / 2 ^ fraction) with zero | some_
  · rw [zero, Nat.zero_mul] at whole
    exact ⟨code, 0, by omega, ⟨by omega, Or.inl rfl⟩, by omega⟩
  · have less : (code / 2 ^ fraction - 1) * 2 ^ fraction + 2 ^ fraction =
        code / 2 ^ fraction * 2 ^ fraction := by
      rw [← Nat.succ_mul]
      congr 1
      omega
    exact ⟨2 ^ fraction + code % 2 ^ fraction, code / 2 ^ fraction - 1, by omega,
      ⟨by omega, Or.inr (by omega)⟩, by omega⟩

theorem lt_size_add (fraction base number : Nat) :
    number < 2 ^ (fraction + 1 + shiftFor fraction base number) := by
  apply lt_of_lt_of_le (Nat.lt_size_self number)
  apply Nat.pow_le_pow_right (by decide)
  unfold shiftFor
  omega

theorem encode_shifted (fraction base number : Nat) :
    Shifted fraction (roundEven number (shiftFor fraction base number))
      (shiftFor fraction base number - base) := by
  constructor
  · exact roundEven_le number _ (lt_size_add fraction base number)
  · rcases Nat.lt_or_ge base (Nat.size number - (fraction + 1)) with above | atMost
    · right
      have shift : shiftFor fraction base number = Nat.size number - (fraction + 1) :=
        Nat.max_eq_right above.le
      apply le_roundEven
      have below : fraction + shiftFor fraction base number < Nat.size number := by omega
      exact Nat.lt_size.mp below
    · left
      unfold shiftFor
      omega

theorem magnitude_encode (fraction base number : Nat) :
    magnitude fraction (encode fraction base number) * 2 ^ base =
      roundEven number (shiftFor fraction base number) * 2 ^ shiftFor fraction base number := by
  have atLeast : base ≤ shiftFor fraction base number := Nat.le_max_left _ _
  rw [encode, (encode_shifted fraction base number).magnitude, Nat.mul_assoc, ← Nat.pow_add,
    Nat.sub_add_cancel atLeast]

theorem encode_nearest (fraction base number code : Nat) :
    (((magnitude fraction (encode fraction base number) * 2 ^ base : Nat) : Int) - number).natAbs ≤
      (((magnitude fraction code * 2 ^ base : Nat) : Int) - number).natAbs := by
  rcases exists_shifted fraction code with ⟨significand, exponent, fits, shifted, same⟩
  have nearest : ∀ multiple, _ := roundEven_nearest number (shiftFor fraction base number)
  have rounded : ∀ multiple : Nat,
      (((magnitude fraction (encode fraction base number) * 2 ^ base : Nat) : Int) - number).natAbs ≤
      (((multiple * 2 ^ shiftFor fraction base number : Nat) : Int) - number).natAbs := by
    intro multiple
    have atMost := nearest multiple
    rw [magnitude_encode]
    push_cast
    exact atMost
  rw [same, shifted.magnitude, Nat.mul_assoc, ← Nat.pow_add]
  rcases Nat.lt_or_ge (exponent + base) (shiftFor fraction base number) with less | multiple
  · -- The value is below the first multiple that needs the shift.
    have atMost := rounded (2 ^ fraction)
    have shift : shiftFor fraction base number = Nat.size number - (fraction + 1) := by
      unfold shiftFor at less ⊢
      omega
    have large : 2 ^ fraction * 2 ^ shiftFor fraction base number ≤ number := by
      rw [← Nat.pow_add]
      exact Nat.lt_size.mp (by omega)
    have small : significand * 2 ^ (exponent + base) ≤
        2 ^ fraction * 2 ^ shiftFor fraction base number := by
      calc significand * 2 ^ (exponent + base)
          ≤ 2 ^ (fraction + 1) * 2 ^ (exponent + base) := Nat.mul_le_mul_right _ fits.le
        _ = 2 ^ fraction * 2 ^ (exponent + base + 1) := by
            rw [← Nat.pow_add, ← Nat.pow_add]
            congr 1
            omega
        _ ≤ 2 ^ fraction * 2 ^ shiftFor fraction base number :=
            Nat.mul_le_mul_left _ (Nat.pow_le_pow_right (by decide) less)
    omega
  · have factor : significand * 2 ^ (exponent + base) =
        significand * 2 ^ (exponent + base - shiftFor fraction base number) *
          2 ^ shiftFor fraction base number := by
      rw [Nat.mul_assoc, ← Nat.pow_add, Nat.sub_add_cancel multiple]
    rw [factor]
    exact rounded _

theorem encode_exact {significand : Nat} (fits : significand < 2 ^ (fraction + 1))
    (exponent : Nat) {base : Nat} (above : base ≤ exponent) :
    magnitude fraction (encode fraction base (significand * 2 ^ exponent)) * 2 ^ base =
      significand * 2 ^ exponent := by
  have size : Nat.size (significand * 2 ^ exponent) ≤ fraction + 1 + exponent := by
    rw [Nat.size_le, Nat.pow_add]
    exact Nat.mul_lt_mul_of_pos_right fits (Nat.two_pow_pos exponent)
  have shift : shiftFor fraction base (significand * 2 ^ exponent) ≤ exponent := by
    unfold shiftFor
    omega
  have factor : significand * 2 ^ exponent =
      significand * 2 ^ (exponent - shiftFor fraction base (significand * 2 ^ exponent)) *
        2 ^ shiftFor fraction base (significand * 2 ^ exponent) := by
    rw [Nat.mul_assoc, ← Nat.pow_add, Nat.sub_add_cancel shift]
  rw [magnitude_encode]
  calc roundEven (significand * 2 ^ exponent) _ * 2 ^ _
      = roundEven (significand * 2 ^ (exponent - shiftFor fraction base (significand * 2 ^ exponent)) *
          2 ^ shiftFor fraction base (significand * 2 ^ exponent))
          (shiftFor fraction base (significand * 2 ^ exponent)) *
          2 ^ shiftFor fraction base (significand * 2 ^ exponent) := by rw [← factor]
    _ = significand * 2 ^ exponent := by rw [roundEven_mul, ← factor]

theorem encode_magnitude (fraction base code : Nat) :
    encode fraction base (magnitude fraction code * 2 ^ base) = code := by
  rcases exists_shifted fraction code with ⟨significand, exponent, fits, shifted, same⟩
  have value : magnitude fraction code * 2 ^ base = significand * 2 ^ (exponent + base) := by
    rw [same, shifted.magnitude, Nat.mul_assoc, ← Nat.pow_add]
  have shift : shiftFor fraction base (significand * 2 ^ (exponent + base)) = exponent + base := by
    have atMost : Nat.size (significand * 2 ^ (exponent + base)) ≤
        fraction + 1 + (exponent + base) := by
      rw [Nat.size_le, Nat.pow_add 2 (fraction + 1)]
      exact Nat.mul_lt_mul_of_pos_right fits (Nat.two_pow_pos _)
    rcases shifted.leading with zero | leading
    · unfold shiftFor
      omega
    · have atLeast : fraction + (exponent + base) <
          Nat.size (significand * 2 ^ (exponent + base)) := by
        rw [Nat.lt_size, Nat.pow_add 2 fraction]
        exact Nat.mul_le_mul_right _ leading
      unfold shiftFor
      omega
  rw [value, encode, shift, roundEven_mul, Nat.add_sub_cancel, ← same]

theorem encode_lt (fraction base : Nat) {number bits : Nat} (small : number < 2 ^ bits) :
    encode fraction base number ≤ (bits - (fraction + 1) + 2) * 2 ^ fraction := by
  have fits := (encode_shifted fraction base number).fits
  have size := Nat.size_le.mpr small
  have steps : shiftFor fraction base number - base ≤ bits - (fraction + 1) := by
    unfold shiftFor
    omega
  have double : 2 ^ (fraction + 1) = 2 * 2 ^ fraction := by rw [Nat.pow_succ, Nat.mul_comm]
  have product := Nat.mul_le_mul_right (2 ^ fraction) steps
  have total : (bits - (fraction + 1) + 2) * 2 ^ fraction =
      (bits - (fraction + 1)) * 2 ^ fraction + 2 * 2 ^ fraction := Nat.add_mul _ _ _
  rw [encode]
  omega

end Codes

section Words

def code32 (value : UInt32) : Nat := value.toNat % 2 ^ 31

def code64 (value : UInt64) : Nat := value.toNat % 2 ^ 63

def infinity32 : Nat := 255 * 2 ^ 23

def infinity64 : Nat := 2047 * 2 ^ 52

/-- The smallest positive float, in units of the smallest positive double. -/
def unit32 : Nat := 925

/-- One, in units of the smallest positive double. -/
def unit64 : Nat := 1074

def narrow (value : UInt64) : UInt32 :=
  let code := code64 value
  let narrowed :=
    if infinity64 < code then infinity32 + 2 ^ 22 + code / 2 ^ 29 % 2 ^ 22
    else if code = infinity64 then infinity32
    else min (encode 23 unit32 (magnitude 52 code)) infinity32
  UInt32.ofNat (value.toNat / 2 ^ 63 * 2 ^ 31 + narrowed)

def widen (value : UInt32) : UInt64 :=
  let code := code32 value
  let widened :=
    if infinity32 < code then infinity64 + 2 ^ 51 + code % 2 ^ 22 * 2 ^ 29
    else if code = infinity32 then infinity64
    else encode 52 0 (magnitude 23 code * 2 ^ unit32)
  UInt64.ofNat (value.toNat / 2 ^ 31 * 2 ^ 63 + widened)

/-- A whole number as a double, none where it is too large for one. -/
def ofInt (value : Int) : Option UInt64 :=
  let code := encode 52 0 (value.natAbs * 2 ^ unit64)
  if code < infinity64 then
    some (UInt64.ofNat ((if value < 0 then 2 ^ 63 else 0) + code))
  else none

def Finite32 (value : UInt32) : Prop := code32 value < infinity32

def Finite64 (value : UInt64) : Prop := code64 value < infinity64

/-- The value of a finite double, in units of the smallest positive one. -/
def units (value : UInt64) : Int :=
  if value.toNat / 2 ^ 63 = 0 then magnitude 52 (code64 value)
  else -magnitude 52 (code64 value)

theorem widened_finite {value : UInt32} (finite : Finite32 value) :
    encode 52 0 (magnitude 23 (code32 value) * 2 ^ unit32) < infinity64 ∧
      magnitude 52 (encode 52 0 (magnitude 23 (code32 value) * 2 ^ unit32)) =
        magnitude 23 (code32 value) * 2 ^ unit32 := by
  rcases exists_shifted 23 (code32 value) with ⟨significand, exponent, fits, shifted, same⟩
  have value_ : magnitude 23 (code32 value) * 2 ^ unit32 =
      significand * 2 ^ (exponent + unit32) := by
    rw [same, shifted.magnitude, Nat.mul_assoc, ← Nat.pow_add]
  have low : exponent < 255 := by
    unfold Finite32 infinity32 at finite
    omega
  constructor
  · have small : ∀ bits, 24 + (exponent + unit32) ≤ bits →
        significand * 2 ^ (exponent + unit32) < 2 ^ bits := by
      intro bits room
      calc significand * 2 ^ (exponent + unit32)
          < 2 ^ (23 + 1) * 2 ^ (exponent + unit32) :=
            Nat.mul_lt_mul_of_pos_right fits (Nat.two_pow_pos _)
        _ = 2 ^ (24 + (exponent + unit32)) := by rw [← Nat.pow_add]
        _ ≤ 2 ^ bits := Nat.pow_le_pow_right (by decide) room
    have bound := encode_lt 52 0 (small 1203 (by unfold unit32; omega))
    rw [value_]
    apply lt_of_le_of_lt bound
    decide
  · have exact_ := @encode_exact 52 significand (lt_of_lt_of_le fits (by decide))
      (exponent + unit32) 0 (Nat.zero_le _)
    rw [Nat.pow_zero, Nat.mul_one] at exact_
    rw [value_]
    exact exact_

theorem widen_finite {value : UInt32} (finite : Finite32 value) :
    code64 (widen value) = encode 52 0 (magnitude 23 (code32 value) * 2 ^ unit32) ∧
      (widen value).toNat / 2 ^ 63 = value.toNat / 2 ^ 31 := by
  have small := (widened_finite finite).1
  have size := value.toNat_lt
  have sign : value.toNat / 2 ^ 31 < 2 := by omega
  unfold Finite32 at finite
  have below : encode 52 0 (magnitude 23 (code32 value) * 2 ^ unit32) < 2 ^ 63 :=
    lt_trans small (by decide)
  have word : (widen value).toNat = value.toNat / 2 ^ 31 * 2 ^ 63 +
      encode 52 0 (magnitude 23 (code32 value) * 2 ^ unit32) := by
    rw [widen, if_neg (by omega), if_neg (by omega), UInt64.toNat_ofNat']
    exact Nat.mod_eq_of_lt (by omega)
  rw [code64, word]
  omega

theorem narrow_widen {value : UInt32} (finite : Finite32 value) : narrow (widen value) = value := by
  have code := (widen_finite finite).1
  have sign := (widen_finite finite).2
  have small := (widened_finite finite).1
  have magnitudes := (widened_finite finite).2
  have size := value.toNat_lt
  unfold Finite32 at finite
  apply UInt32.toNat_inj.mp
  rw [narrow, code, if_neg (by omega), if_neg (by omega), magnitudes, encode_magnitude, sign,
    Nat.min_eq_left (by omega), UInt32.toNat_ofNat', code32]
  rw [Nat.mod_eq_of_lt (by omega)]
  omega

theorem narrow_code {value : UInt64} (finite : Finite64 value) (fits : Finite32 (narrow value)) :
    code32 (narrow value) = encode 23 unit32 (magnitude 52 (code64 value)) ∧
      (narrow value).toNat / 2 ^ 31 = value.toNat / 2 ^ 63 := by
  have size := value.toNat_lt
  unfold Finite64 at finite
  have top : infinity32 = 255 * 2 ^ 23 := rfl
  have word : (narrow value).toNat = value.toNat / 2 ^ 63 * 2 ^ 31 +
      min (encode 23 unit32 (magnitude 52 (code64 value))) infinity32 := by
    rw [narrow, if_neg (by omega), if_neg (by omega), UInt32.toNat_ofNat']
    exact Nat.mod_eq_of_lt (by omega)
  unfold Finite32 at fits
  rw [code32, word] at fits ⊢
  omega

theorem narrow_nearest {value : UInt64} (finite : Finite64 value) (fits : Finite32 (narrow value))
    {other : UInt32} (known : Finite32 other) :
    (units (widen (narrow value)) - units value).natAbs ≤
      (units (widen other) - units value).natAbs := by
  have codes := narrow_code finite fits
  have here := encode_nearest 23 unit32 (magnitude 52 (code64 value)) (code32 other)
  have zero := encode_nearest 23 unit32 (magnitude 52 (code64 value)) 0
  have none : magnitude 23 0 = 0 := rfl
  have wide : magnitude 52 (code64 (widen (narrow value))) =
      magnitude 23 (encode 23 unit32 (magnitude 52 (code64 value))) * 2 ^ unit32 := by
    rw [(widen_finite fits).1, (widened_finite fits).2, codes.1]
  have wideOther : magnitude 52 (code64 (widen other)) =
      magnitude 23 (code32 other) * 2 ^ unit32 := by
    rw [(widen_finite known).1, (widened_finite known).2]
  rw [none, Nat.zero_mul] at zero
  simp only [units, wide, wideOther, (widen_finite fits).2, (widen_finite known).2, codes.2]
  generalize magnitude 23 (encode 23 unit32 (magnitude 52 (code64 value))) * 2 ^ unit32 = near
    at here zero ⊢
  generalize magnitude 23 (code32 other) * 2 ^ unit32 = far at here ⊢
  generalize magnitude 52 (code64 value) = exact_ at here zero ⊢
  split_ifs <;> omega

theorem ofInt_code {value : Int} {float : UInt64} (known : ofInt value = some float) :
    Finite64 float ∧ code64 float = encode 52 0 (value.natAbs * 2 ^ unit64) ∧
      float.toNat / 2 ^ 63 = if value < 0 then 1 else 0 := by
  unfold ofInt at known
  simp only at known
  split at known
  · next small =>
      have top : infinity64 = 2047 * 2 ^ 52 := rfl
      rw [Option.some.injEq] at known
      have word : float.toNat = (if value < 0 then 2 ^ 63 else 0) +
          encode 52 0 (value.natAbs * 2 ^ unit64) := by
        rw [← known, UInt64.toNat_ofNat']
        apply Nat.mod_eq_of_lt
        split <;> omega
      have code : code64 float = encode 52 0 (value.natAbs * 2 ^ unit64) := by
        rw [code64, word]
        split <;> omega
      refine ⟨?_, code, ?_⟩
      · rw [Finite64, code]
        exact small
      · rw [word]
        split <;> omega
  · cases known

theorem ofInt_nearest {value : Int} {float : UInt64} (known : ofInt value = some float)
    (other : UInt64) :
    (units float - value * (2 ^ unit64 : Nat)).natAbs ≤
      (units other - value * (2 ^ unit64 : Nat)).natAbs := by
  have codes := ofInt_code known
  have here := encode_nearest 52 0 (value.natAbs * 2 ^ unit64) (code64 other)
  have zero := encode_nearest 52 0 (value.natAbs * 2 ^ unit64) 0
  have none : magnitude 52 0 = 0 := rfl
  rw [Nat.pow_zero, Nat.mul_one, Nat.mul_one] at here
  rw [Nat.pow_zero, Nat.mul_one, Nat.mul_one, none] at zero
  simp only [units, codes.2.1, codes.2.2]
  generalize magnitude 52 (encode 52 0 (value.natAbs * 2 ^ unit64)) = near at here zero ⊢
  generalize magnitude 52 (code64 other) = far at here ⊢
  by_cases negative : value < 0
  · simp only [if_pos negative, Nat.one_ne_zero, if_false]
    have product : value * (2 ^ unit64 : Nat) = -((value.natAbs * 2 ^ unit64 : Nat) : Int) := by
      push_cast
      rw [abs_of_neg negative]
      ring
    rw [product]
    generalize value.natAbs * 2 ^ unit64 = whole at here zero ⊢
    split_ifs <;> omega
  · simp only [if_neg negative, if_true]
    have product : value * (2 ^ unit64 : Nat) = ((value.natAbs * 2 ^ unit64 : Nat) : Int) := by
      push_cast
      rw [abs_of_nonneg (not_lt.mp negative)]
    rw [product]
    generalize value.natAbs * 2 ^ unit64 = whole at here zero ⊢
    split_ifs <;> omega

end Words

end VectorVault.FloatWidths
