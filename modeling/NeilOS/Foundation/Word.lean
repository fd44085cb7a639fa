import Mathlib.Data.Nat.Bitwise
import Mathlib.Tactic.Common

/-!
# Machine words and masks

Masks of the form `2 ^ k - 1` split a 32-bit word into its quotient and remainder by `2 ^ k`, and
shifting by `k` puts a number above the `k` bits of another one.
-/

namespace Foundation

abbrev Word := BitVec 32
abbrev Byte := BitVec 8

namespace Word

theorem toNat_ofNat_of_lt {number : ℕ} (h : number < 2 ^ 32) :
    (BitVec.ofNat 32 number).toNat = number := by
  simp only [BitVec.toNat_ofNat]
  omega

/-- A counter that has advanced by one and goes on. -/
theorem add_one_ofNat (word : Word) (number : ℕ) :
    word + 1 + BitVec.ofNat 32 number = word + BitVec.ofNat 32 (number + 1) := by
  rw [BitVec.add_assoc, Nat.add_comm number, BitVec.ofNat_add]
  rfl

/-- Keeping the low bits is the remainder. -/
theorem toNat_and_low (word : Word) (bits : ℕ) :
    (word &&& .ofNat 32 (2 ^ bits - 1)).toNat = word.toNat % 2 ^ bits := by
  apply Nat.eq_of_testBit_eq
  intro index
  rw [BitVec.testBit_toNat, BitVec.getLsbD_and, BitVec.getLsbD_ofNat, Nat.testBit_two_pow_sub_one,
    Nat.testBit_mod_two_pow, BitVec.testBit_toNat]
  by_cases hindex : index < 32
  · simp [hindex, Bool.and_comm]
  · simp [hindex, BitVec.getLsbD_of_ge word index (by omega)]

/-- Clearing the low bits rounds down. -/
theorem toNat_and_high (word : Word) (bits : ℕ) :
    (word &&& ~~~(.ofNat 32 (2 ^ bits - 1))).toNat = word.toNat / 2 ^ bits * 2 ^ bits := by
  apply Nat.eq_of_testBit_eq
  intro index
  rw [BitVec.testBit_toNat, BitVec.getLsbD_and, BitVec.getLsbD_not, BitVec.getLsbD_ofNat,
    Nat.testBit_two_pow_sub_one, Nat.testBit_mul_two_pow, Nat.testBit_div_two_pow,
    BitVec.testBit_toNat]
  by_cases hbits : bits ≤ index
  · have hhigh : ¬ index < bits := by omega
    rw [Nat.sub_add_cancel hbits]
    by_cases hindex : index < 32
    · simp [hindex, hbits, hhigh]
    · simp [BitVec.getLsbD_of_ge word index (by omega)]
  · have hlow : index < bits := by omega
    by_cases hindex : index < 32
    · simp [hindex, hbits, hlow]
    · simp [BitVec.getLsbD_of_ge word index (by omega), hbits]

/-- Bits put above the bits of a number add a multiple of a power of two. -/
theorem toNat_or_shiftLeft {width bits : ℕ} {low high : BitVec width} (hlow : low.toNat < 2 ^ bits)
    (hhigh : high.toNat * 2 ^ bits < 2 ^ width) :
    (low ||| high <<< bits).toNat = low.toNat + 2 ^ bits * high.toNat := by
  rw [BitVec.toNat_or, BitVec.toNat_shiftLeft, Nat.shiftLeft_eq, Nat.mod_eq_of_lt hhigh, Nat.or_comm,
    ← Nat.shiftLeft_eq, ← Nat.shiftLeft_add_eq_or_of_lt hlow, Nat.shiftLeft_eq, Nat.add_comm,
    Nat.mul_comm]

theorem toNat_setWidth_and_low (word : Word) (bits : ℕ) :
    ((word &&& .ofNat 32 (2 ^ bits - 1)).setWidth bits).toNat = word.toNat % 2 ^ bits := by
  rw [BitVec.toNat_setWidth, toNat_and_low, Nat.mod_mod]

/-- Two halves that are cut out and put together again. -/
theorem append_halves (word : Word) (bits : ℕ) :
    ((word >>> bits) &&& .ofNat 32 (2 ^ bits - 1)).setWidth bits ++
        (word &&& .ofNat 32 (2 ^ bits - 1)).setWidth bits = word.setWidth (bits + bits) := by
  apply BitVec.eq_of_toNat_eq
  have hlow : word.toNat % 2 ^ bits < 2 ^ bits := Nat.mod_lt _ (Nat.two_pow_pos bits)
  rw [BitVec.toNat_append, toNat_setWidth_and_low, toNat_setWidth_and_low, BitVec.toNat_setWidth,
    BitVec.toNat_ushiftRight, Nat.shiftRight_eq_div_pow]
  calc (word.toNat / 2 ^ bits % 2 ^ bits) <<< bits ||| word.toNat % 2 ^ bits
      = (word.toNat / 2 ^ bits % 2 ^ bits) <<< bits + word.toNat % 2 ^ bits :=
        (Nat.shiftLeft_add_eq_or_of_lt hlow _).symm
    _ = word.toNat % 2 ^ bits + 2 ^ bits * (word.toNat / 2 ^ bits % 2 ^ bits) := by
        rw [Nat.shiftLeft_eq, Nat.mul_comm, Nat.add_comm]
    _ = word.toNat % 2 ^ (bits + bits) := by rw [Nat.pow_add, Nat.mod_mul]

end Word

end Foundation
