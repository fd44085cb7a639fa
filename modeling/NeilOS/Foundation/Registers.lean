import Mathlib.Data.Nat.Bitwise
import NeilOS.Foundation.Word

/-!
# Registers with byte parts

A 32-bit register whose low half has two byte parts of its own, as `EAX` has `AX`, `AH` and `AL`. The
parts are the fields, so writing one leaves the others alone by definition.
-/

namespace Foundation

structure Register where
  upper : BitVec 16
  high : Byte
  low : Byte

namespace Register

def word (register : Register) : Word := register.upper ++ register.high ++ register.low

def ofWord (word : Word) : Register :=
  ⟨(word >>> 16).setWidth 16, (word >>> 8).setWidth 8, word.setWidth 8⟩

/-- The low half. -/
def half (register : Register) : BitVec 16 := register.high ++ register.low

def setHalf (half : BitVec 16) (register : Register) : Register :=
  { register with high := (half >>> 8).setWidth 8, low := half.setWidth 8 }

@[simp]
theorem word_ofWord (word : Word) : (ofWord word).word = word := by
  apply BitVec.eq_of_getLsbD_eq
  intro index hindex
  simp only [Register.word, ofWord, BitVec.getLsbD_append, BitVec.getLsbD_setWidth,
    BitVec.getLsbD_ushiftRight]
  grind

@[simp]
theorem ofWord_word (register : Register) : ofWord register.word = register := by
  obtain ⟨upper, high, low⟩ := register
  simp only [Register.word, ofWord, mk.injEq]
  refine ⟨?_, ?_, ?_⟩ <;> apply BitVec.eq_of_getLsbD_eq <;> intro index hindex <;>
    simp only [BitVec.getLsbD_append, BitVec.getLsbD_setWidth, BitVec.getLsbD_ushiftRight] <;> grind

@[simp]
theorem half_setHalf (half : BitVec 16) (register : Register) :
    (register.setHalf half).half = half := by
  apply BitVec.eq_of_getLsbD_eq
  intro index hindex
  simp only [Register.half, setHalf, BitVec.getLsbD_append, BitVec.getLsbD_setWidth,
    BitVec.getLsbD_ushiftRight]
  grind

end Register

/-- Unsigned division of a double word by a word, which fails if the quotient has no room. -/
def divide {width : ℕ} (upper lower divisor : BitVec width) :
    Option (BitVec width × BitVec width) :=
  let dividend := upper.toNat * 2 ^ width + lower.toNat
  if divisor.toNat = 0 ∨ 2 ^ width ≤ dividend / divisor.toNat then none
  else some (.ofNat width (dividend / divisor.toNat), .ofNat width (dividend % divisor.toNat))

/-- With nothing in the upper word the division is that of the lower word. -/
theorem divide_zero {width : ℕ} {divisor : BitVec width} (lower : BitVec width)
    (hdivisor : divisor.toNat ≠ 0) :
    divide 0 lower divisor = some (lower / divisor, lower % divisor) := by
  have hquotient : lower.toNat / divisor.toNat < 2 ^ width :=
    (Nat.div_le_self _ _).trans_lt lower.isLt
  have hremainder : lower.toNat % divisor.toNat < 2 ^ width :=
    (Nat.mod_le _ _).trans_lt lower.isLt
  have hzero : (0 : BitVec width).toNat * 2 ^ width + lower.toNat = lower.toNat := by simp
  simp only [divide]
  rw [hzero, if_neg (not_or.mpr ⟨hdivisor, Nat.not_le.mpr hquotient⟩), Option.some.injEq,
    Prod.mk.injEq]
  constructor
  · apply BitVec.eq_of_toNat_eq
    rw [BitVec.toNat_ofNat, BitVec.toNat_udiv, Nat.mod_eq_of_lt hquotient]
  · apply BitVec.eq_of_toNat_eq
    rw [BitVec.toNat_ofNat, BitVec.toNat_umod, Nat.mod_eq_of_lt hremainder]

end Foundation
