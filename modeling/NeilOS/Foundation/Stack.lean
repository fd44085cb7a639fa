import NeilOS.Foundation.Memory

/-!
# A stack of words that grows downwards

`push` decrements the stack pointer and stores. `WordsAt` lists consecutive words upwards from an
address, so that a sequence of pushes leaves the pushed words in reverse order above the new
stack pointer and nothing else changed. In 16-bit code return addresses are half words.
-/

namespace Foundation

namespace Memory

def load16 (memory : Memory) (address : Word) : BitVec 16 := memory (address + 1) ++ memory address

def store16 (memory : Memory) (address : Word) (value : BitVec 16) : Memory :=
  (memory.store8 address (value.setWidth 8)).store8 (address + 1) ((value >>> 8).setWidth 8)

theorem load16_congr {first second : Memory} {address : Word}
    (h : ∀ target : Word, (target - address).toNat < 2 → first target = second target) :
    load16 first address = load16 second address := by
  unfold load16
  rw [h (address + 1) (by bv_omega), h address (by bv_omega)]

theorem load32_of_toNat {memory : Memory} {number : ℕ} {address value : Word}
    (hvalue : load32 memory (.ofNat 32 number) = value) (hnumber : number = address.toNat) :
    load32 memory address = value := by
  rw [← hvalue, hnumber, BitVec.ofNat_toNat, BitVec.setWidth_eq]

/-- The half word at an address is the low half of the word there. -/
theorem load16_eq_setWidth (memory : Memory) (address : Word) :
    load16 memory address = (load32 memory address).setWidth 16 := by
  apply BitVec.eq_of_getLsbD_eq
  intro index hindex
  simp only [load16, load32, BitVec.getLsbD_append, BitVec.getLsbD_setWidth]
  grind

theorem store16_of_outside {memory : Memory} {address target : Word} {value : BitVec 16}
    (h : 2 ≤ (target - address).toNat) : store16 memory address value target = memory target := by
  have hfirst : target ≠ address := by bv_omega
  have hsecond : target ≠ address + 1 := by bv_omega
  rw [store16, store8_of_ne hsecond, store8_of_ne hfirst]

/-- The two stored bytes read back as the half word they were cut from. -/
@[simp]
theorem load16_store16 (memory : Memory) (address : Word) (value : BitVec 16) :
    load16 (store16 memory address value) address = value := by
  have hfirst : address ≠ address + 1 := by bv_omega
  rw [load16, store16, store8_same, store8_of_ne hfirst, store8_same]
  apply BitVec.eq_of_getLsbD_eq
  intro index hindex
  simp only [BitVec.getLsbD_append, BitVec.getLsbD_setWidth, BitVec.getLsbD_ushiftRight]
  grind

end Memory

/-- Consecutive words from an address upwards. -/
def WordsAt (memory : Memory) : ℕ → List Word → Prop
  | _, [] => True
  | address, word :: rest =>
      memory.load32 (.ofNat 32 address) = word ∧ WordsAt memory (address + 4) rest

namespace Stack

/-- A stack pointer with the memory it points into. -/
abbrev Top := Word × Memory

def push (value : Word) (top : Top) : Top :=
  (top.1 - 4, top.2.store32 (top.1 - 4) value)

def pushAll (values : List Word) (top : Top) : Top :=
  values.foldl (fun top value ↦ push value top) top

def pushHalf (value : BitVec 16) (top : Top) : Top :=
  (top.1 - 2, top.2.store16 (top.1 - 2) value)

end Stack

/-- Nothing at or above an address has changed. -/
def KeepsAbove (floor : ℕ) (before after : Memory) : Prop :=
  ∀ target : Word, floor ≤ target.toNat → after target = before target

namespace KeepsAbove

variable {floor : ℕ} {before middle after : Memory}

theorem refl (floor : ℕ) (memory : Memory) : KeepsAbove floor memory memory := fun _ _ ↦ rfl

theorem trans (hfirst : KeepsAbove floor before middle) (hsecond : KeepsAbove floor middle after) :
    KeepsAbove floor before after :=
  fun target htarget ↦ (hsecond target htarget).trans (hfirst target htarget)

theorem raise {higher : ℕ} (h : KeepsAbove floor before after) (hle : floor ≤ higher) :
    KeepsAbove higher before after :=
  fun target htarget ↦ h target (hle.trans htarget)

theorem load32 (h : KeepsAbove floor before after) {address : Word} (hlow : floor ≤ address.toNat)
    (hhigh : address.toNat + 4 ≤ 2 ^ 32) : after.load32 address = before.load32 address :=
  Memory.load32_congr fun target htarget ↦ h target (by bv_omega)

theorem load16 (h : KeepsAbove floor before after) {address : Word} (hlow : floor ≤ address.toNat)
    (hhigh : address.toNat + 2 ≤ 2 ^ 32) : after.load16 address = before.load16 address :=
  Memory.load16_congr fun target htarget ↦ h target (by bv_omega)

theorem push {top : Stack.Top} (value : Word) (hroom : 4 ≤ top.1.toNat) :
    KeepsAbove top.1.toNat top.2 (Stack.push value top).2 :=
  fun _ htarget ↦ Memory.store32_of_outside (by bv_omega)

theorem pushHalf {top : Stack.Top} (value : BitVec 16) (hroom : 2 ≤ top.1.toNat) :
    KeepsAbove top.1.toNat top.2 (Stack.pushHalf value top).2 :=
  fun _ htarget ↦ Memory.store16_of_outside (by bv_omega)

end KeepsAbove

theorem wordsAt_append {memory : Memory} {address : ℕ} {first second : List Word} :
    WordsAt memory address (first ++ second) ↔
      WordsAt memory address first ∧ WordsAt memory (address + 4 * first.length) second := by
  induction first generalizing address with
  | nil => simp [WordsAt]
  | cons word rest ih =>
    have hnext : address + 4 + 4 * rest.length = address + 4 * (rest.length + 1) := by omega
    simp only [List.cons_append, WordsAt, ih, List.length_cons, hnext, and_assoc]

/-- The words depend only on the bytes they occupy. -/
theorem WordsAt.frame {before after : Memory} {address : ℕ} {words : List Word}
    (h : WordsAt before address words) (hbound : address + 4 * words.length ≤ 2 ^ 32)
    (hsame : ∀ target : Word, address ≤ target.toNat → target.toNat < address + 4 * words.length →
      after target = before target) : WordsAt after address words := by
  induction words generalizing address with
  | nil => trivial
  | cons word rest ih =>
    simp only [List.length_cons] at hbound hsame
    refine ⟨?_, ih h.2 (by omega) fun target hlow hhigh ↦ hsame target (by omega) (by omega)⟩
    rw [← h.1]
    apply Memory.load32_ofNat_congr (by omega)
    intro target hlow hhigh
    exact hsame target hlow (by omega)

namespace Stack

/-- What a sequence of pushes does. -/
structure Pushed (before : Memory) (pointer : ℕ) (values : List Word) (top : Top) : Prop where
  pointer_eq : top.1 = .ofNat 32 (pointer - 4 * values.length)
  words : WordsAt top.2 (pointer - 4 * values.length) values.reverse
  outside : ∀ target : Word,
    target.toNat < pointer - 4 * values.length ∨ pointer ≤ target.toNat → top.2 target = before target

theorem pushAll_spec (memory : Memory) {pointer : ℕ} (values : List Word)
    (hroom : 4 * values.length ≤ pointer) (hbound : pointer < 2 ^ 32) :
    Pushed memory pointer values (pushAll values (.ofNat 32 pointer, memory)) := by
  induction values generalizing memory pointer with
  | nil => exact ⟨by simp [pushAll], trivial, fun _ _ ↦ rfl⟩
  | cons value rest ih =>
    simp only [List.length_cons] at hroom
    have hpointer : BitVec.ofNat 32 pointer - 4 = BitVec.ofNat 32 (pointer - 4) := by bv_omega
    have hfirst : pushAll (value :: rest) (.ofNat 32 pointer, memory) =
        pushAll rest (.ofNat 32 (pointer - 4), memory.store32 (.ofNat 32 (pointer - 4)) value) := by
      rw [← hpointer]
      rfl
    have hrest := ih (memory.store32 (.ofNat 32 (pointer - 4)) value)
      (by omega : 4 * rest.length ≤ pointer - 4) (by omega)
    have hend : pointer - 4 - 4 * rest.length = pointer - 4 * (value :: rest).length := by
      simp only [List.length_cons]
      omega
    rw [hfirst]
    refine ⟨by rw [hrest.pointer_eq, hend], ?_, ?_⟩
    · rw [List.reverse_cons, wordsAt_append, ← hend]
      refine ⟨hrest.words, ?_, trivial⟩
      have haddress : pointer - 4 - 4 * rest.length + 4 * rest.reverse.length = pointer - 4 := by
        simp only [List.length_reverse]
        omega
      rw [haddress]
      calc
        _ = (memory.store32 (.ofNat 32 (pointer - 4)) value).load32 (.ofNat 32 (pointer - 4)) :=
          Memory.load32_ofNat_congr (by omega) fun target hlow _ ↦ hrest.outside target (.inr hlow)
        _ = value := Memory.load32_store32 ..
    · intro target htarget
      simp only [List.length_cons] at htarget
      rw [hrest.outside target (by omega)]
      have htargetEq : target = .ofNat 32 target.toNat := by simp
      rw [htargetEq]
      have hlt := target.isLt
      exact Memory.store32_ofNat_of_outside (by omega) (by omega) (by omega)

/-- The pushed words lie at the new pointer, the last one first, and nothing above the old one changes. -/
theorem pushAll_keeps (top : Top) (values : List Word) (hroom : 4 * values.length ≤ top.1.toNat) :
    (pushAll values top).1.toNat = top.1.toNat - 4 * values.length ∧
      WordsAt (pushAll values top).2 (pushAll values top).1.toNat values.reverse ∧
      KeepsAbove top.1.toNat top.2 (pushAll values top).2 := by
  have hlt := top.1.isLt
  have hpushed := pushAll_spec top.2 values hroom hlt
  rw [BitVec.ofNat_toNat, BitVec.setWidth_eq] at hpushed
  have hpointer : (pushAll values top).1.toNat = top.1.toNat - 4 * values.length := by
    rw [hpushed.pointer_eq, BitVec.toNat_ofNat]
    exact Nat.mod_eq_of_lt (by omega)
  refine ⟨hpointer, ?_, fun target htarget ↦ hpushed.outside target (.inr htarget)⟩
  rw [hpointer]
  exact hpushed.words

end Stack

end Foundation
