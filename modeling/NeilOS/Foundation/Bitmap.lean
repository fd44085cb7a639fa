import Mathlib.Algebra.GroupWithZero.Nat
import Mathlib.Data.Finset.Max
import Mathlib.Tactic.Common

/-!
# Sets of indices packed into machine words

Bit `index % width` of word `index / width` says whether `index` is marked. The three operations
are the usual shift-and-mask expressions; `test_mark` and `test_clear` replace them by membership,
after which no proof has to look at words again. `unmarked count` is the finite set of clear
indices below a bound, and `Adds` says that a set of indices has been marked.
-/

namespace Foundation

abbrev Bitmap (width : ℕ) := ℕ → BitVec width

namespace Bitmap

variable {width : ℕ}

def mask (width index : ℕ) : BitVec width := BitVec.ofNat width 1 <<< (index % width)

def test (bits : Bitmap width) (index : ℕ) : Bool :=
  (bits (index / width) &&& mask width index) != 0

def mark (bits : Bitmap width) (index : ℕ) : Bitmap width :=
  Function.update bits (index / width) (bits (index / width) ||| mask width index)

def clear (bits : Bitmap width) (index : ℕ) : Bitmap width :=
  Function.update bits (index / width) (bits (index / width) &&& ~~~mask width index)

/-- The clear indices below a bound. -/
def unmarked (count : ℕ) (bits : Bitmap width) : Finset ℕ :=
  (Finset.range count).filter fun index ↦ test bits index = false

@[simp]
theorem mem_unmarked {count index : ℕ} {bits : Bitmap width} :
    index ∈ unmarked count bits ↔ index < count ∧ test bits index = false := by
  simp [unmarked]

/-! ## One bit at a time -/

theorem word_or_bit_ne (width : ℕ) {first second : ℕ} (h : first ≠ second) :
    first / width ≠ second / width ∨ first % width ≠ second % width := by
  by_contra hboth
  push Not at hboth
  apply h
  calc
    first = width * (first / width) + first % width := (Nat.div_add_mod first width).symm
    _ = width * (second / width) + second % width := by rw [hboth.1, hboth.2]
    _ = second := Nat.div_add_mod second width

section Words

variable [NeZero width]

theorem getLsbD_mask (index bit : ℕ) :
    (mask width index).getLsbD bit = decide (bit = index % width) := by
  have hindex : index % width < width := Nat.mod_lt index (Nat.pos_of_ne_zero (NeZero.ne width))
  rw [mask, ← BitVec.twoPow_eq, BitVec.getLsbD_twoPow]
  by_cases h : bit = index % width
  · simp [h, hindex]
  · simp [h, Ne.symm h]

theorem test_eq_getLsbD (bits : Bitmap width) (index : ℕ) :
    test bits index = (bits (index / width)).getLsbD (index % width) := by
  have hindex : index % width < width := Nat.mod_lt index (Nat.pos_of_ne_zero (NeZero.ne width))
  cases hbit : (bits (index / width)).getLsbD (index % width) with
  | false =>
    have hzero : bits (index / width) &&& mask width index = 0 := by
      apply BitVec.eq_of_getLsbD_eq
      intro bit _
      rw [BitVec.getLsbD_and, getLsbD_mask]
      by_cases h : bit = index % width
      · simp [h, hbit]
      · simp [h]
    simp [test, hzero]
  | true =>
    have hnonzero : bits (index / width) &&& mask width index ≠ 0 := by
      intro hzero
      have hset : (bits (index / width) &&& mask width index).getLsbD (index % width) = true := by
        simp [getLsbD_mask, hbit]
      rw [hzero] at hset
      simp at hset
    simpa [test] using hnonzero

@[simp]
theorem test_mark (bits : Bitmap width) (index other : ℕ) :
    test (mark bits index) other = (decide (other = index) || test bits other) := by
  rw [test_eq_getLsbD, test_eq_getLsbD, mark]
  by_cases hword : other / width = index / width
  · rw [hword, Function.update_self, BitVec.getLsbD_or, getLsbD_mask, Bool.or_comm]
    congr 1
    by_cases heq : other = index
    · simp [heq]
    · have hbit := (word_or_bit_ne width heq).resolve_left (not_not_intro hword)
      simp [heq, hbit]
  · have hne : other ≠ index := fun heq ↦ hword (by rw [heq])
    rw [Function.update_of_ne hword]
    simp [hne]

@[simp]
theorem test_clear (bits : Bitmap width) (index other : ℕ) :
    test (clear bits index) other = (decide (other ≠ index) && test bits other) := by
  rw [test_eq_getLsbD, test_eq_getLsbD, clear]
  by_cases hword : other / width = index / width
  · have hbound : other % width < width := Nat.mod_lt other (Nat.pos_of_ne_zero (NeZero.ne width))
    rw [hword, Function.update_self, BitVec.getLsbD_and, BitVec.getLsbD_not, getLsbD_mask,
      Bool.and_comm]
    congr 1
    by_cases heq : other = index
    · simp [heq]
    · have hbit := (word_or_bit_ne width heq).resolve_left (not_not_intro hword)
      simp [heq, hbit, hbound]
  · have hne : other ≠ index := fun heq ↦ hword (by rw [heq])
    rw [Function.update_of_ne hword]
    simp [hne]

/-- Clearing a bit that was marked for a moment restores every word. -/
theorem clear_mark {bits : Bitmap width} {index : ℕ} (h : test bits index = false) :
    clear (mark bits index) index = bits := by
  rw [test_eq_getLsbD] at h
  unfold clear mark
  rw [Function.update_self, Function.update_idem]
  funext word
  by_cases hword : word = index / width
  · subst hword
    rw [Function.update_self]
    apply BitVec.eq_of_getLsbD_eq
    intro bit hbound
    rw [BitVec.getLsbD_and, BitVec.getLsbD_or, BitVec.getLsbD_not, getLsbD_mask]
    by_cases hbit : bit = index % width
    · simp [hbit, h]
    · simp [hbit, hbound]
  · rw [Function.update_of_ne hword]

/-! ## The set of clear indices -/

theorem unmarked_mark (count index : ℕ) (bits : Bitmap width) :
    unmarked count (mark bits index) = (unmarked count bits).erase index := by
  ext other
  simp [and_left_comm]

theorem unmarked_clear {count index : ℕ} (hindex : index < count) (bits : Bitmap width) :
    unmarked count (clear bits index) = insert index (unmarked count bits) := by
  ext other
  by_cases heq : other = index
  · simp [heq, hindex]
  · simp [heq]

/-- The tests determine the words. -/
theorem eq_of_test {first second : Bitmap width} (h : ∀ index, test first index = test second index) :
    first = second := by
  have hpositive : 0 < width := Nat.pos_of_ne_zero (NeZero.ne width)
  funext word
  apply BitVec.eq_of_getLsbD_eq
  intro bit hbit
  have hword : (width * word + bit) / width = word := by
    rw [Nat.mul_add_div hpositive, Nat.div_eq_of_lt hbit, Nat.add_zero]
  have hindex : (width * word + bit) % width = bit := by
    rw [Nat.mul_add_mod, Nat.mod_eq_of_lt hbit]
  have htest := h (width * word + bit)
  rwa [test_eq_getLsbD, test_eq_getLsbD, hword, hindex] at htest

end Words

/-! ## Marking a set of indices -/

/-- The marked indices grow by the set and by nothing else. -/
def Adds (indices : Finset ℕ) (before after : Bitmap width) : Prop :=
  ∀ index, test after index = true ↔ index ∈ indices ∨ test before index = true

/-- The indices of the set that are not marked yet. -/
def fresh (indices : Finset ℕ) (bits : Bitmap width) : Finset ℕ :=
  indices.filter fun index ↦ test bits index = false

theorem adds_empty (bits : Bitmap width) : Adds ∅ bits bits := by
  intro index
  simp

theorem Adds.trans {first second : Finset ℕ} {before middle after : Bitmap width}
    (h : Adds first before middle) (hnext : Adds second middle after) :
    Adds (first ∪ second) before after := by
  intro index
  rw [hnext, h, Finset.mem_union, or_left_comm, or_assoc]

/-- What is new in two steps is new in the first or in the second. -/
theorem Adds.card_fresh_union {first : Finset ℕ} {before middle : Bitmap width}
    (h : Adds first before middle) (second : Finset ℕ) :
    (fresh (first ∪ second) before).card = (fresh first before).card + (fresh second middle).card := by
  have hsplit : fresh (first ∪ second) before = fresh first before ∪ fresh second middle := by
    ext index
    simp only [fresh, Finset.mem_filter, Finset.mem_union, ← Bool.not_eq_true, h index]
    tauto
  have hdisjoint : Disjoint (fresh first before) (fresh second middle) := by
    rw [Finset.disjoint_left]
    intro index hfirst hsecond
    have hclear := (Finset.mem_filter.mp hsecond).2
    rw [← Bool.not_eq_true, h index] at hclear
    exact hclear (.inl (Finset.mem_filter.mp hfirst).1)
  rw [hsplit, Finset.card_union_of_disjoint hdisjoint]

theorem Adds.unmarked {indices : Finset ℕ} {before after : Bitmap width}
    (h : Adds indices before after) (count : ℕ) :
    unmarked count after = unmarked count before \ indices := by
  ext index
  simp only [mem_unmarked, Finset.mem_sdiff, ← Bool.not_eq_true, h index]
  tauto

theorem adds_mark [NeZero width] (bits : Bitmap width) (index : ℕ) :
    Adds {index} bits (mark bits index) := by
  intro other
  rw [test_mark, Bool.or_eq_true, decide_eq_true_eq, Finset.mem_singleton]

/-- There is one bitmap with the set added. -/
theorem Adds.unique [NeZero width] {indices : Finset ℕ} {before first second : Bitmap width}
    (hfirst : Adds indices before first) (hsecond : Adds indices before second) : first = second := by
  apply eq_of_test
  intro index
  exact Bool.eq_iff_iff.mpr ((hfirst index).trans (hsecond index).symm)

end Bitmap

end Foundation
