import Mathlib.Data.Nat.Bitwise
import VectorVault.Crc64
import VectorVault.Library.WindowedFold

/-! The checksum tells inputs apart that differ in a window of eight bytes. -/

namespace VectorVault.Crc64

open WindowedFold

section Bits

def bit (crc : UInt64) (i : Nat) : Bool := crc.toNat.testBit i

theorem bit_ext {first second : UInt64} (same : ∀ i < 64, bit first i = bit second i) :
    first = second := by
  apply UInt64.toNat_inj.mp
  apply Nat.eq_of_testBit_eq
  intro i
  by_cases inside : i < 64
  · exact same i inside
  · have beyond : 2 ^ 64 ≤ 2 ^ i := Nat.pow_le_pow_right (by decide) (not_lt.mp inside)
    rw [Nat.testBit_lt_two_pow (lt_of_lt_of_le first.toNat_lt beyond),
      Nat.testBit_lt_two_pow (lt_of_lt_of_le second.toNat_lt beyond)]

theorem bit_xor (first second : UInt64) (i : Nat) :
    bit (first ^^^ second) i = (bit first i ^^ bit second i) := by
  rw [bit, UInt64.toNat_xor, Nat.testBit_xor]
  rfl

theorem bit_shiftLeft (crc : UInt64) {count i : Nat} (small : count < 64) (inside : i < 64) :
    bit (crc <<< UInt64.ofNat count) i = (decide (count ≤ i) && bit crc (i - count)) := by
  have amount : (UInt64.ofNat count).toNat % 64 = count := by
    rw [UInt64.toNat_ofNat_of_lt' (lt_trans small (by decide)), Nat.mod_eq_of_lt small]
  rw [bit, UInt64.toNat_shiftLeft, amount, Nat.testBit_mod_two_pow, Nat.testBit_shiftLeft]
  simp [inside, bit]

theorem top_iff (crc : UInt64) : crc &&& 0x8000000000000000 ≠ 0 ↔ bit crc 63 = true := by
  rw [ne_eq, ← UInt64.toNat_inj, UInt64.toNat_and,
    show (0x8000000000000000 : UInt64).toNat = 2 ^ 63 from rfl, Nat.and_two_pow, bit]
  cases crc.toNat.testBit 63 <;> simp

theorem bit_shiftBit (crc : UInt64) {i : Nat} (inside : i < 64) :
    bit (shiftBit crc) i =
      ((decide (1 ≤ i) && bit crc (i - 1)) ^^ (bit crc 63 && bit poly i)) := by
  have shifted := bit_shiftLeft crc (show 1 < 64 by decide) inside
  unfold shiftBit
  by_cases top : crc &&& 0x8000000000000000 ≠ 0
  · rw [if_pos top, bit_xor, (top_iff crc).mp top, Bool.true_and]
    exact congrArg (· ^^ bit poly i) shifted
  · have clear := Bool.eq_false_of_not_eq_true (fun set => top ((top_iff crc).mpr set))
    rw [if_neg top, clear, Bool.false_and, Bool.xor_false]
    exact shifted

end Bits

section Table

def SameEnds (low high : Nat) (first second : UInt64) : Prop :=
  (∀ i < low, bit first i = bit second i) ∧ ∀ i < high, bit first (63 - i) = bit second (63 - i)

/-- The polynomial is odd, so the lowest bit after a shift is the highest one
before it; the other bits follow from it. -/
theorem shiftBit_back {low high : Nat} {first second : UInt64} (lowFits : low < 64)
    (highFits : high < 64) (same : SameEnds (low + 1) high (shiftBit first) (shiftBit second)) :
    SameEnds low (high + 1) first second := by
  have odd : bit poly 0 = true := by decide
  have top : bit first 63 = bit second 63 := by
    have lowest := same.1 0 (Nat.zero_lt_succ low)
    rw [bit_shiftBit first (by decide), bit_shiftBit second (by decide), odd] at lowest
    simpa using lowest
  constructor
  · intro i less
    have next := same.1 (i + 1) (by omega)
    rw [bit_shiftBit first (by omega), bit_shiftBit second (by omega), top] at next
    simpa using next
  · intro i less
    cases i with
    | zero => exact top
    | succ i =>
        have next := same.2 i (by omega)
        rw [bit_shiftBit first (by omega), bit_shiftBit second (by omega), top] at next
        rw [show 63 - (i + 1) = 63 - i - 1 by omega]
        have positive : decide (1 ≤ 63 - i) = true := decide_eq_true (by omega)
        rw [positive] at next
        simpa using next

theorem shifts_back (rounds : List Nat) {low high : Nat} {first second : UInt64}
    (lowFits : low + rounds.length ≤ 64) (highFits : high + rounds.length ≤ 64)
    (same : SameEnds (low + rounds.length) high (rounds.foldl (fun crc _ => shiftBit crc) first)
      (rounds.foldl (fun crc _ => shiftBit crc) second)) :
    SameEnds low (high + rounds.length) first second := by
  induction rounds generalizing low high first second with
  | nil => exact same
  | cons round rest ih =>
      rw [List.length_cons] at lowFits highFits same ⊢
      rw [show low + (rest.length + 1) = low + 1 + rest.length by omega] at same
      have earlier := ih (show low + 1 + rest.length ≤ 64 by omega)
        (show high + rest.length ≤ 64 by omega) same
      exact shiftBit_back (by omega) (show high + rest.length < 64 by omega) earlier

theorem tableEntry_injective {first second : UInt8}
    (same : ∀ i < 8, bit (tableEntry first) i = bit (tableEntry second) i) : first = second := by
  have ends : SameEnds (0 + (List.range 8).length) 0 (tableEntry first) (tableEntry second) :=
    ⟨same, fun _ less => absurd less (Nat.not_lt_zero _)⟩
  have tops := (shifts_back (List.range 8) (by decide) (by decide) ends).2
  have place : ∀ byte : UInt8, ∀ i < 8,
      bit (byte.toUInt64 <<< 56) (63 - i) = byte.toNat.testBit (7 - i) := by
    intro byte i less
    have shifted := @bit_shiftLeft byte.toUInt64 56 (63 - i) (by decide) (by omega)
    rw [decide_eq_true (show 56 ≤ 63 - i by omega), Bool.true_and,
      show 63 - i - 56 = 7 - i by omega] at shifted
    exact shifted
  apply UInt8.toNat_inj.mp
  apply Nat.eq_of_testBit_eq
  intro i
  by_cases inside : i < 8
  · have equal := tops (7 - i) (show 7 - i < 8 by omega)
    rw [place first _ (by omega), place second _ (by omega), show 7 - (7 - i) = i by omega] at equal
    exact equal
  · have beyond : 2 ^ 8 ≤ 2 ^ i := Nat.pow_le_pow_right (by decide) (not_lt.mp inside)
    rw [Nat.testBit_lt_two_pow (lt_of_lt_of_le first.toNat_lt beyond),
      Nat.testBit_lt_two_pow (lt_of_lt_of_le second.toNat_lt beyond)]

end Table

section Step

def selector (crc : UInt64) (byte : UInt8) : UInt8 := (crc >>> 56).toUInt8 ^^^ byte

theorem step_eq (crc : UInt64) (byte : UInt8) :
    step crc byte = (crc <<< 8) ^^^ tableEntry (selector crc byte) := by
  have entry : table.getD (selector crc byte).toNat 0 = tableEntry (selector crc byte) := by
    rw [table, List.getD_eq_getElem?_getD, List.getElem?_map,
      List.getElem?_range (selector crc byte).toNat_lt, Option.map_some, Option.getD_some,
      UInt8.ofNat_toNat]
  rw [step, ← selector, entry]

def SameLow (bytes : Nat) (first second : UInt64) : Prop :=
  ∀ i < 8 * bytes, bit first i = bit second i

theorem selector_eq {first second : UInt64} {one other : UInt8}
    (same : SameLow 1 (step first one) (step second other)) :
    selector first one = selector second other := by
  apply tableEntry_injective
  intro i less
  have lowest := same i less
  have clear : ∀ crc : UInt64, bit (crc <<< 8) i = false := by
    intro crc
    have shifted := @bit_shiftLeft crc 8 i (by decide) (by omega)
    rw [decide_eq_false (show ¬ 8 ≤ i by omega), Bool.false_and] at shifted
    exact shifted
  rw [step_eq, step_eq, bit_xor, bit_xor, clear, clear, Bool.false_xor, Bool.false_xor] at lowest
  exact lowest

theorem sameLow_back {bytes : Nat} {first second : UInt64} {one other : UInt8} (less : bytes < 8)
    (same : SameLow (bytes + 1) (step first one) (step second other)) :
    SameLow bytes first second := by
  have selected : selector first one = selector second other :=
    selector_eq (fun i inside => same i (by omega))
  intro i inside
  have next := same (i + 8) (by omega)
  have moved : ∀ crc : UInt64, bit (crc <<< 8) (i + 8) = bit crc i := by
    intro crc
    have shifted := @bit_shiftLeft crc 8 (i + 8) (by decide) (by omega)
    rw [decide_eq_true (show 8 ≤ i + 8 by omega), Bool.true_and, Nat.add_sub_cancel] at shifted
    exact shifted
  rw [step_eq, step_eq, bit_xor, bit_xor, moved, moved, selected] at next
  simpa using next

theorem bit_top (crc : UInt64) {i : Nat} (less : i < 8) :
    bit crc (i + 56) = (crc >>> 56).toUInt8.toNat.testBit i := by
  rw [UInt64.toNat_toUInt8, Nat.testBit_mod_two_pow, UInt64.toNat_shiftRight,
    Nat.testBit_shiftRight, decide_eq_true less, Bool.true_and, Nat.add_comm i 56]
  rfl

theorem xor_left_cancel {base first second : UInt8} (same : base ^^^ first = base ^^^ second) :
    first = second := by
  have twice : ∀ byte : UInt8, base ^^^ (base ^^^ byte) = byte := by
    intro byte
    rw [← UInt8.xor_assoc, UInt8.xor_self, UInt8.zero_xor]
  calc first = base ^^^ (base ^^^ first) := (twice first).symm
    _ = base ^^^ (base ^^^ second) := by rw [same]
    _ = second := twice second

theorem step_injective {first second : UInt64} {byte : UInt8}
    (same : step first byte = step second byte) : first = second := by
  have agree : ∀ bytes, SameLow bytes (step first byte) (step second byte) := by
    intro bytes i _
    rw [same]
  have tops : (first >>> 56).toUInt8 = (second >>> 56).toUInt8 := by
    have selected := selector_eq (agree 1)
    rw [selector, selector, UInt8.xor_comm, UInt8.xor_comm _ byte] at selected
    exact xor_left_cancel selected
  apply bit_ext
  intro i inside
  by_cases low : i < 8 * 7
  · exact sameLow_back (by decide) (agree 8) i low
  · have high := bit_top first (show i - 56 < 8 by omega)
    rw [tops, ← bit_top second (by omega), Nat.sub_add_cancel (by omega)] at high
    exact high

theorem moves : Moves step SameLow 8 where
  refl _ _ _ _ := rfl
  fewer same i less := same i (by omega)
  back less same := sameLow_back less same
  input same := xor_left_cancel (selector_eq same)
  injective same := step_injective same

end Step

theorem crc64Ecma_changed {front one other back : Bytes} (crc : UInt64)
    (lengths : other.length = one.length) (within : one.length ≤ 8) (changed : one ≠ other) :
    crc64Ecma (front ++ one ++ back) crc ≠ crc64Ecma (front ++ other ++ back) crc :=
  moves.fold_changed lengths within changed

end VectorVault.Crc64
