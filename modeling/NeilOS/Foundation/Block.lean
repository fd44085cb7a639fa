import NeilOS.Foundation.Memory

/-!
# Blocks of bytes in memory

Storing a block of bytes at an address, and memory that holds given contents from a base address on.
Contents grow block by block: a block stored right behind them extends them, and a block stored apart
from them leaves them alone.
-/

namespace Foundation.Memory

/-- The first `length` bytes of a block stored from `address` on. -/
def storeBlock (memory : Memory) (address : Word) (length : ℕ) (block : ℕ → Byte) : Memory :=
  fun target ↦
    if (target - address).toNat < length then block (target - address).toNat else memory target

/-- The first `count` bytes of `content` are in memory from `base` on. -/
def BytesAt (memory : Memory) (base count : ℕ) (content : ℕ → Byte) : Prop :=
  ∀ index < count, memory (.ofNat 32 (base + index)) = content index

section Blocks

variable {memory : Memory} {address length : ℕ} {block : ℕ → Byte}

theorem storeBlock_inside {offset : ℕ} (hlength : length ≤ 2 ^ 32) (hoffset : offset < length) :
    storeBlock memory (.ofNat 32 address) length block (.ofNat 32 (address + offset)) =
      block offset := by
  have hdistance : (BitVec.ofNat 32 (address + offset) - BitVec.ofNat 32 address).toNat = offset := by
    bv_omega
  rw [storeBlock, hdistance, if_pos hoffset]

theorem storeBlock_outside {target : ℕ} (hblock : address + length ≤ 2 ^ 32)
    (htarget : target < 2 ^ 32) (h : target < address ∨ address + length ≤ target) :
    storeBlock memory (.ofNat 32 address) length block (.ofNat 32 target) =
      memory (.ofNat 32 target) := by
  rw [storeBlock, if_neg]
  bv_omega

end Blocks

namespace BytesAt

variable {memory : Memory} {base count address length : ℕ} {content block : ℕ → Byte}

theorem zero (memory : Memory) (base : ℕ) (content : ℕ → Byte) : BytesAt memory base 0 content :=
  fun index hindex ↦ absurd hindex (Nat.not_lt_zero index)

theorem frame (h : BytesAt memory base count content) (hbytes : base + count ≤ 2 ^ 32)
    (hblock : address + length ≤ 2 ^ 32) (hapart : base + count ≤ address ∨ address + length ≤ base) :
    BytesAt (storeBlock memory (.ofNat 32 address) length block) base count content := by
  intro index hindex
  rw [storeBlock_outside hblock (by omega) (by omega)]
  exact h index hindex

/-- A block stored behind the contents extends them. -/
theorem extend (h : BytesAt memory base count content) (hroom : base + count + length ≤ 2 ^ 32)
    (hblock : ∀ offset < length, block offset = content (count + offset)) :
    BytesAt (storeBlock memory (.ofNat 32 (base + count)) length block) base (count + length)
      content := by
  intro index hindex
  rcases Nat.lt_or_ge index count with hold | hnew
  · rw [storeBlock_outside hroom (by omega) (by omega)]
    exact h index hold
  · obtain ⟨offset, rfl⟩ := Nat.exists_eq_add_of_le hnew
    rw [← Nat.add_assoc, storeBlock_inside (by omega) (by omega)]
    exact hblock offset (by omega)

end BytesAt

end Foundation.Memory
