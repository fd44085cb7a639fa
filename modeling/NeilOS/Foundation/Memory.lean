import Mathlib.Logic.Function.Basic
import NeilOS.Foundation.Word

/-!
# Byte-addressed memory with little-endian words

Memory is a total map from 32-bit addresses to bytes. A word access touches the four bytes at
`address`, .., `address + 3`, with addresses wrapping modulo `2 ^ 32` as the machine computes
them. Every frame fact below is stated through the wrapped distance between two addresses, so
that no alignment and no bound on the address is needed to use it.
-/

namespace Foundation

abbrev Memory := Word → Byte

namespace Memory

def load32 (memory : Memory) (address : Word) : Word :=
  memory (address + 3) ++ memory (address + 2) ++ memory (address + 1) ++ memory address

def store8 (memory : Memory) (address : Word) (value : Byte) : Memory :=
  Function.update memory address value

def store32 (memory : Memory) (address value : Word) : Memory := fun target ↦
  if (target - address).toNat < 4 then value.extractLsb' (8 * (target - address).toNat) 8
  else memory target

/-- The two words share no byte. -/
def Apart (left right : Word) : Prop := 4 ≤ (left - right).toNat ∧ 4 ≤ (right - left).toNat

instance (left right : Word) : Decidable (Apart left right) :=
  inferInstanceAs (Decidable (_ ∧ _))

/-- Words that are apart as number ranges are apart modulo `2 ^ 32` when neither wraps. -/
theorem apart_of_toNat {left right : Word} (hleft : left.toNat + 4 ≤ 2 ^ 32)
    (hright : right.toNat + 4 ≤ 2 ^ 32)
    (h : left.toNat + 4 ≤ right.toNat ∨ right.toNat + 4 ≤ left.toNat) : Apart left right := by
  unfold Apart
  constructor <;> bv_omega

theorem load32_congr {first second : Memory} {address : Word}
    (h : ∀ target : Word, (target - address).toNat < 4 → first target = second target) :
    load32 first address = load32 second address := by
  unfold load32
  rw [h (address + 3) (by bv_omega), h (address + 2) (by bv_omega), h (address + 1) (by bv_omega),
    h address (by bv_omega)]

/-- A word from its four bytes. -/
theorem load32_of_bytes {memory : Memory} {address : Word} {width start : ℕ} {value : BitVec width}
    (h : ∀ index < 4, memory (address + .ofNat 32 index) = value.extractLsb' (start + 8 * index) 8) :
    memory.load32 address = value.extractLsb' start 32 := by
  have hfirst : memory address = value.extractLsb' start 8 := by
    have := h 0 (by decide)
    simpa using this
  calc memory.load32 address
      = value.extractLsb' (start + 24) 8 ++ value.extractLsb' (start + 16) 8 ++
          value.extractLsb' (start + 8) 8 ++ value.extractLsb' start 8 := by
        rw [← hfirst, ← h 1 (by decide), ← h 2 (by decide), ← h 3 (by decide)]
        rfl
    _ = value.extractLsb' (start + 16) 16 ++ value.extractLsb' (start + 8) 8 ++ value.extractLsb' start 8 := by
        rw [BitVec.extractLsb'_append_extractLsb'_eq_extractLsb' (by omega)]
    _ = value.extractLsb' (start + 8) 24 ++ value.extractLsb' start 8 := by
        rw [BitVec.extractLsb'_append_extractLsb'_eq_extractLsb' (by omega)]
    _ = value.extractLsb' start 32 := BitVec.extractLsb'_append_extractLsb'_eq_extractLsb' (by omega)

/-! ## Byte stores -/

@[simp] theorem store8_same (memory : Memory) (address : Word) (value : Byte) :
    store8 memory address value address = value := by
  simp [store8]

theorem store8_of_ne {memory : Memory} {address target : Word} {value : Byte}
    (h : target ≠ address) : store8 memory address value target = memory target :=
  Function.update_of_ne h _ _

theorem load32_store8_of_outside {memory : Memory} {address target : Word} {value : Byte}
    (h : 4 ≤ (address - target).toNat) :
    load32 (store8 memory address value) target = load32 memory target := by
  apply load32_congr
  intro byte hbyte
  apply store8_of_ne
  rintro rfl
  omega

/-! ## Word stores -/

theorem store32_of_outside {memory : Memory} {address target value : Word}
    (h : 4 ≤ (target - address).toNat) : store32 memory address value target = memory target := by
  unfold store32
  rw [if_neg (by omega)]

theorem store32_of_inside {memory : Memory} {address target value : Word}
    (h : (target - address).toNat < 4) :
    store32 memory address value target = value.extractLsb' (8 * (target - address).toNat) 8 := by
  unfold store32
  rw [if_pos h]

/-- The four stored bytes read back as the word they were cut from. -/
@[simp] theorem load32_store32 (memory : Memory) (address value : Word) :
    load32 (store32 memory address value) address = value := by
  have hbyte (offset : Word) (hoffset : offset.toNat < 4) :
      store32 memory address value (address + offset) = value.extractLsb' (8 * offset.toNat) 8 := by
    have hdistance : (address + offset - address).toNat = offset.toNat := by bv_omega
    rw [store32_of_inside (by omega), hdistance]
  have hzero := hbyte 0 (by decide)
  rw [show address + 0 = address by simp] at hzero
  unfold load32
  rw [hbyte 3 (by decide), hbyte 2 (by decide), hbyte 1 (by decide), hzero]
  apply BitVec.eq_of_getLsbD_eq
  intro index hindex
  simp only [BitVec.getLsbD_append, BitVec.getLsbD_extractLsb']
  grind

theorem load32_store32_of_apart {memory : Memory} {address target value : Word}
    (h : Apart address target) :
    load32 (store32 memory address value) target = load32 memory target := by
  apply load32_congr
  intro byte hbyte
  apply store32_of_outside
  obtain ⟨hfirst, hsecond⟩ := h
  bv_omega

/-! ## Addresses given as numbers

The same facts for addresses of the form `BitVec.ofNat 32 n`, with side conditions that linear
arithmetic decides. -/

theorem store8_ofNat_of_ne {memory : Memory} {address target : ℕ} {value : Byte}
    (haddress : address < 2 ^ 32) (htarget : target < 2 ^ 32) (h : target ≠ address) :
    store8 memory (.ofNat 32 address) value (.ofNat 32 target) = memory (.ofNat 32 target) := by
  apply store8_of_ne
  intro heq
  have hnumber := congrArg BitVec.toNat heq
  rw [Word.toNat_ofNat_of_lt haddress, Word.toNat_ofNat_of_lt htarget] at hnumber
  exact h hnumber

theorem store32_ofNat_of_outside {memory : Memory} {address target : ℕ} {value : Word}
    (haddress : address + 4 ≤ 2 ^ 32) (htarget : target < 2 ^ 32)
    (h : target < address ∨ address + 4 ≤ target) :
    store32 memory (.ofNat 32 address) value (.ofNat 32 target) = memory (.ofNat 32 target) := by
  apply store32_of_outside
  bv_omega

theorem load32_store8_ofNat_of_outside {memory : Memory} {address target : ℕ} {value : Byte}
    (haddress : address < 2 ^ 32) (htarget : target + 4 ≤ 2 ^ 32)
    (h : address < target ∨ target + 4 ≤ address) :
    load32 (store8 memory (.ofNat 32 address) value) (.ofNat 32 target) =
      load32 memory (.ofNat 32 target) := by
  apply load32_store8_of_outside
  bv_omega

theorem load32_store32_ofNat_of_apart {memory : Memory} {address target : ℕ} {value : Word}
    (haddress : address + 4 ≤ 2 ^ 32) (htarget : target + 4 ≤ 2 ^ 32)
    (h : target + 4 ≤ address ∨ address + 4 ≤ target) :
    load32 (store32 memory (.ofNat 32 address) value) (.ofNat 32 target) =
      load32 memory (.ofNat 32 target) := by
  apply load32_store32_of_apart
  unfold Apart
  constructor <;> bv_omega

theorem load32_ofNat_congr {first second : Memory} {address : ℕ} (haddress : address + 4 ≤ 2 ^ 32)
    (h : ∀ target : Word, address ≤ target.toNat → target.toNat < address + 4 →
      first target = second target) :
    load32 first (.ofNat 32 address) = load32 second (.ofNat 32 address) := by
  apply load32_congr
  intro target htarget
  apply h <;> bv_omega

end Memory

end Foundation
