import VectorVault.Host
import VectorVault.Library.FloatWidths
import Mathlib.Order.WithBot

/-! Exact Euclidean distances on one-component vectors.

A float32 is a whole number of its smallest positive value, so the distance of
two of them on the line is a natural number of that unit. Layer draws come from
a given list. -/

namespace VectorVault.ExactLine

def units (value : F32) : Int :=
  let exponent := ((value >>> 23) &&& 0xFF).toNat
  let fraction := (value &&& 0x7FFFFF).toNat
  let magnitude : Nat := if exponent = 0 then fraction else (2 ^ 23 + fraction) * 2 ^ (exponent - 1)
  if value >>> 31 = 1 then -magnitude else magnitude

def distance (metric : DistanceMetric) (first second : List F32) : Result (WithTop Nat) :=
  match metric, first, second with
  | .euclidean, [x], [y] => .ok ((units x - units y).natAbs : Nat)
  | _, _, _ => .error ⟨.undefinedDistance, text "only Euclidean distances on the line"⟩

def host (draws : List Nat) : Host (WithTop Nat) where
  distance := distance
  randomTopLayer _ _ drawn := draws.getD drawn 0 % 2 ^ 31
  randomTopLayer_lt _ _ _ := Nat.mod_lt _ (by decide)
  squaredL2 first second :=
    match distance .euclidean first second with
    | .ok (some length) => (length * length : Nat)
    | _ => ⊤
  mean members := members.headD []
  shuffled _ length := List.range length
  shuffled_perm := Host.in_place_perm

/-- The float of a number of units, exact where 24 bits hold its significant ones. -/
def ofUnits (number : Nat) : F32 := UInt32.ofNat (FloatWidths.encode 23 0 number)

theorem units_ofUnits {number : Nat} (small : FloatWidths.encode 23 0 number < 2 ^ 31) :
    units (ofUnits number) = FloatWidths.magnitude 23 (FloatWidths.encode 23 0 number) := by
  have word : (ofUnits number).toNat = FloatWidths.encode 23 0 number := by
    rw [ofUnits, UInt32.toNat_ofNat']
    exact Nat.mod_eq_of_lt (by omega)
  have low : (0xFF : UInt32).toNat = 2 ^ 8 - 1 ∧ (0x7FFFFF : UInt32).toNat = 2 ^ 23 - 1 := by decide
  have by23 : (23 : UInt32).toNat % 32 = 23 := rfl
  have by31 : (31 : UInt32).toNat % 32 = 31 := rfl
  have exponent : (((ofUnits number) >>> 23) &&& 0xFF).toNat =
      FloatWidths.encode 23 0 number / 2 ^ 23 := by
    rw [UInt32.toNat_and, UInt32.toNat_shiftRight, word, by23, low.1,
      Nat.and_two_pow_sub_one_eq_mod, Nat.shiftRight_eq_div_pow]
    exact Nat.mod_eq_of_lt (by omega)
  have fraction : ((ofUnits number) &&& 0x7FFFFF).toNat =
      FloatWidths.encode 23 0 number % 2 ^ 23 := by
    rw [UInt32.toNat_and, word, low.2, Nat.and_two_pow_sub_one_eq_mod]
  have sign : ¬ (ofUnits number) >>> 31 = 1 := by
    intro one
    have isOne := congrArg UInt32.toNat one
    rw [UInt32.toNat_shiftRight, word, by31, Nat.shiftRight_eq_div_pow] at isOne
    have value : (1 : UInt32).toNat = 1 := rfl
    omega
  rw [units, if_neg sign, exponent, fraction, FloatWidths.magnitude]
  split
  · next zero =>
      rw [Nat.mod_eq_of_lt (by omega)]
  · rfl

def whole (number : Nat) : F32 := ofUnits (number * 2 ^ 149)

example : whole 0 = 0 ∧ whole 1 = 0x3F800000 ∧ whole 10 = 0x41200000 := by decide +kernel

/-- The mean of non-negative points, rounded to a float where it is none. -/
def mean (members : List (List F32)) : List F32 :=
  [ofUnits ((members.map (fun vec => (units (vec.headD 0)).toNat)).sum / members.length)]

/-- The line with exact means; the shuffle leaves the positions in place. -/
def meansHost : Host (WithTop Nat) := { host [] with mean := mean }

theorem mean_perm {first second : List (List F32)} (permuted : first.Perm second) :
    mean first = mean second := by
  rw [mean, mean, (permuted.map _).sum_eq, permuted.length_eq]

end VectorVault.ExactLine
