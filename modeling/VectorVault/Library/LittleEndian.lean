import Mathlib.Data.UInt
import Mathlib.Tactic

/-! Little-endian digits of naturals, as bytes. -/

namespace VectorVault.LittleEndian

def split : Nat → Nat → List UInt8
  | 0, _ => []
  | width + 1, value => UInt8.ofNat value :: split width (value / 256)

def combine : List UInt8 → Nat
  | [] => 0
  | byte :: rest => byte.toNat + 256 * combine rest

@[simp] theorem length_split (width value : Nat) : (split width value).length = width := by
  induction width generalizing value with
  | zero => rfl
  | succ width ih => simp [split, ih]

theorem combine_lt (bytes : List UInt8) : combine bytes < 256 ^ bytes.length := by
  induction bytes with
  | nil => decide
  | cons byte rest ih =>
      have small := byte.toNat_lt
      calc combine (byte :: rest) = byte.toNat + 256 * combine rest := rfl
        _ < 256 * (combine rest + 1) := by omega
        _ ≤ 256 * 256 ^ rest.length := Nat.mul_le_mul_left 256 ih
        _ = 256 ^ (byte :: rest).length := by rw [List.length_cons, Nat.pow_succ, Nat.mul_comm]

theorem combine_split_mod (width value : Nat) :
    combine (split width value) = value % 256 ^ width := by
  induction width generalizing value with
  | zero => simp [split, combine, Nat.mod_one]
  | succ width ih =>
      calc combine (split (width + 1) value) = value % 256 + 256 * (value / 256 % 256 ^ width) := by
            rw [split, combine, ih, UInt8.toNat_ofNat']
        _ = value % (256 * 256 ^ width) := Nat.mod_mul.symm
        _ = value % 256 ^ (width + 1) := by rw [Nat.pow_succ, Nat.mul_comm]

theorem combine_split (width value : Nat) (fits : value < 256 ^ width) :
    combine (split width value) = value := by
  rw [combine_split_mod, Nat.mod_eq_of_lt fits]

theorem split_combine (bytes : List UInt8) : split bytes.length (combine bytes) = bytes := by
  induction bytes with
  | nil => rfl
  | cons byte rest ih =>
      have small := byte.toNat_lt
      have quotient : (byte.toNat + 256 * combine rest) / 256 = combine rest := by omega
      have digit : UInt8.ofNat (byte.toNat + 256 * combine rest) = byte := by
        apply UInt8.toNat_inj.mp
        rw [UInt8.toNat_ofNat']
        omega
      rw [List.length_cons, split, combine, quotient, ih, digit]

theorem split_inj {width first second : Nat} (fits : first < 256 ^ width)
    (fitsToo : second < 256 ^ width) (same : split width first = split width second) :
    first = second := by
  have values := congrArg combine same
  rw [combine_split width first fits, combine_split width second fitsToo] at values
  exact values

end VectorVault.LittleEndian
