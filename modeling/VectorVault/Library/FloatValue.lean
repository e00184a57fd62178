import VectorVault.Library.FloatOrder
import Mathlib.Data.Int.Log
import Mathlib.Data.Rat.Floor

/-! Float32 values as rationals, infinities and the not-a-number.

Numbers are exact within the range of float32, which is what tells special values
apart; a square root has the 24 significant bits of the format. -/

namespace VectorVault

inductive FloatValue where
  | nan
  | infinite (negative : Bool)
  | finite (value : ℚ)
  deriving DecidableEq

namespace FloatValue

def largest : ℚ := (2 ^ 24 - 1) * 2 ^ 104

/-- A number beyond the range becomes an infinity. -/
def narrow (value : ℚ) : FloatValue :=
  if largest < value then infinite false
  else if value < -largest then infinite true
  else finite value

def root (value : ℚ) : ℚ :=
  let unit : ℚ := 2 ^ (Int.log 2 value / 2 - 23)
  let scaled := value / (unit * unit)
  let whole := Nat.sqrt ⌊scaled⌋₊
  if (whole + 1 / 2) * (whole + 1 / 2) < scaled then (whole + 1) * unit else whole * unit

def sqrt : FloatValue → FloatValue
  | nan => nan
  | infinite negative => if negative then nan else infinite false
  | finite value => if value < 0 then nan else finite (root value)

def mul : FloatValue → FloatValue → FloatValue
  | nan, _ | _, nan => nan
  | infinite first, infinite second => infinite (first != second)
  | infinite negative, finite value | finite value, infinite negative =>
      if value = 0 then nan else infinite (negative != decide (value < 0))
  | finite first, finite second => narrow (first * second)

def sub : FloatValue → FloatValue → FloatValue
  | nan, _ | _, nan => nan
  | infinite first, infinite second => if first = second then nan else infinite first
  | infinite negative, finite _ => infinite negative
  | finite _, infinite negative => infinite (!negative)
  | finite first, finite second => narrow (first - second)

def div : FloatValue → FloatValue → FloatValue
  | nan, _ | _, nan => nan
  | infinite _, infinite _ => nan
  | infinite negative, finite value => infinite (negative != decide (value < 0))
  | finite _, infinite _ => finite 0
  | finite first, finite second =>
      if second = 0 then (if first = 0 then nan else infinite (decide (first < 0)))
      else narrow (first / second)

/-- The place among the numbers; that of a not-a-number means nothing. -/
def rank : FloatValue → WithBot (WithTop ℚ)
  | nan => ⊥
  | infinite negative => if negative then ⊥ else ((⊤ : WithTop ℚ) : WithBot (WithTop ℚ))
  | finite value => ((value : WithTop ℚ) : WithBot (WithTop ℚ))

/-- Every comparison with a not-a-number fails. -/
def compares (relation : WithBot (WithTop ℚ) → WithBot (WithTop ℚ) → Bool)
    (first second : FloatValue) : Bool :=
  decide (first ≠ nan) && decide (second ≠ nan) && relation first.rank second.rank

instance : FloatOrder FloatValue where
  lt := compares (fun first second => decide (first < second))
  le := compares (fun first second => decide (first ≤ second))
  eq := compares (fun first second => decide (first = second))
  infinity := infinite false
  lt_irrefl value := by simp [compares]
  lt_trans first second third low high := by
    simp only [compares, Bool.and_eq_true, decide_eq_true_eq] at low high ⊢
    exact ⟨⟨low.1.1, high.1.2⟩, low.2.trans high.2⟩

section Numbers

variable {first second : FloatValue}

theorem lt_iff (isFirst : first ≠ nan) (isSecond : second ≠ nan) :
    FloatOrder.lt first second = true ↔ first.rank < second.rank := by
  simp [FloatOrder.lt, compares, isFirst, isSecond]

theorem eq_iff (isFirst : first ≠ nan) (isSecond : second ≠ nan) :
    FloatOrder.eq first second = true ↔ first.rank = second.rank := by
  simp [FloatOrder.eq, compares, isFirst, isSecond]

theorem lt_finite_iff (low high : ℚ) :
    FloatOrder.lt (finite low) (finite high) = true ↔ low < high := by
  rw [lt_iff (by simp) (by simp), rank, rank, WithBot.coe_lt_coe, WithTop.coe_lt_coe]

theorem finite_lt_infinite (value : ℚ) :
    FloatOrder.lt (finite value) (infinite false) = true := by
  rw [lt_iff (by simp) (by simp)]
  exact WithBot.coe_lt_coe.mpr (WithTop.coe_lt_top value)

theorem infinite_lt_finite (value : ℚ) :
    FloatOrder.lt (infinite true) (finite value) = true := by
  rw [lt_iff (by simp) (by simp)]
  exact WithBot.bot_lt_coe _

theorem eq_finite_iff (value : FloatValue) (number : ℚ) :
    FloatOrder.eq value (finite number) = true ↔ value = finite number := by
  cases value with
  | nan => simp [FloatOrder.eq, compares]
  | infinite negative => cases negative <;> simp [FloatOrder.eq, compares, rank]
  | finite other => simp [FloatOrder.eq, compares, rank]

end Numbers

section Narrow

variable {value : ℚ}

theorem largest_pos : 0 < largest := by
  unfold largest
  norm_num

theorem narrow_ne_nan (value : ℚ) : narrow value ≠ nan := by
  unfold narrow
  split_ifs <;> simp

theorem narrow_of_le (within : |value| ≤ largest) : narrow value = finite value := by
  obtain ⟨low, high⟩ := abs_le.mp within
  rw [narrow, if_neg (not_lt.mpr high), if_neg (not_lt.mpr low)]

theorem narrow_of_lt (beyond : largest < |value|) : ∃ negative, narrow value = infinite negative := by
  rcases lt_abs.mp beyond with high | low
  · exact ⟨false, by rw [narrow, if_pos high]⟩
  · have below : value < -largest := by linarith
    have positive := largest_pos
    exact ⟨true, by rw [narrow, if_neg (by linarith), if_pos below]⟩

theorem narrow_nonneg (positive : 0 ≤ value) :
    narrow value = infinite false ∨ narrow value = finite value := by
  unfold narrow
  have bound := largest_pos
  split_ifs with high low
  · exact Or.inl rfl
  · linarith
  · exact Or.inr rfl

theorem root_pos (positive : 0 < value) : 0 < root value := by
  have unit : (0 : ℚ) < 2 ^ (Int.log 2 value / 2 - 23) := by positivity
  -- The last bit is so small that the scaled value is at least one.
  have large : (1 : ℚ) ≤ value /
      (2 ^ (Int.log 2 value / 2 - 23) * 2 ^ (Int.log 2 value / 2 - 23)) := by
    rw [le_div_iff₀ (by positivity), one_mul, ← zpow_add₀ (by norm_num)]
    calc (2 : ℚ) ^ (Int.log 2 value / 2 - 23 + (Int.log 2 value / 2 - 23))
        ≤ 2 ^ Int.log 2 value := zpow_le_zpow_right₀ (by norm_num) (by omega)
      _ ≤ value := by
          have below := Int.zpow_log_le_self (b := 2) (by norm_num) positive
          exact_mod_cast below
  have some_ : 0 < Nat.sqrt ⌊value /
      (2 ^ (Int.log 2 value / 2 - 23) * 2 ^ (Int.log 2 value / 2 - 23))⌋₊ :=
    Nat.sqrt_pos.mpr (Nat.floor_pos.mpr large)
  have whole : (0 : ℚ) < Nat.sqrt ⌊value /
      (2 ^ (Int.log 2 value / 2 - 23) * 2 ^ (Int.log 2 value / 2 - 23))⌋₊ := by
    exact_mod_cast some_
  simp only [root]
  split
  · positivity
  · positivity

end Narrow

end FloatValue

end VectorVault
