import Mathlib.Logic.Function.Iterate
import NeilOS.Foundation.Word

/-!
# Zero-terminated texts

A text is read through a pointer that is advanced after every byte, until a zero is read. The pointer may be
of any type: an address, an offset in a segment, a position in a list.
-/

namespace Foundation

section Text

variable {Pointer : Type} {read other : Pointer → Byte} {next : Pointer → Pointer}

/-- From a pointer on lie the bytes of a text, none of them zero, and then a zero. -/
def TextFrom (read : Pointer → Byte) (next : Pointer → Pointer) : Pointer → List Byte → Prop
  | pointer, [] => read pointer = 0
  | pointer, byte :: rest => byte ≠ 0 ∧ read pointer = byte ∧ TextFrom read next (next pointer) rest

instance decidableTextFrom (read : Pointer → Byte) (next : Pointer → Pointer) :
    (pointer : Pointer) → (text : List Byte) → Decidable (TextFrom read next pointer text)
  | _, [] => inferInstanceAs (Decidable (_ = _))
  | pointer, _ :: rest =>
      have := decidableTextFrom read next (next pointer) rest
      inferInstanceAs (Decidable (_ ∧ _ ∧ _))

/-- Only the bytes of the text and its zero count. -/
theorem TextFrom.congr {pointer : Pointer} {text : List Byte} (h : TextFrom read next pointer text)
    (hsame : ∀ index ≤ text.length, other (next^[index] pointer) = read (next^[index] pointer)) :
    TextFrom other next pointer text := by
  induction text generalizing pointer with
  | nil => exact (hsame 0 (Nat.le_refl 0)).trans h
  | cons byte rest ih =>
    obtain ⟨hne, hbyte, hrest⟩ := h
    refine ⟨hne, (hsame 0 (Nat.zero_le _)).trans hbyte, ih hrest fun index hindex ↦ ?_⟩
    exact hsame (index + 1) (Nat.succ_le_succ hindex)

/-- A text is determined by its start. -/
theorem TextFrom.unique {pointer : Pointer} {text longer : List Byte} (h : TextFrom read next pointer text)
    (hlonger : TextFrom read next pointer longer) : longer = text := by
  induction text generalizing pointer longer with
  | nil =>
    cases longer with
    | nil => rfl
    | cons byte rest => exact absurd (hlonger.2.1.symm.trans h) hlonger.1
  | cons byte rest ih =>
    obtain ⟨hne, hbyte, hrest⟩ := h
    cases longer with
    | nil => exact absurd (hbyte.symm.trans hlonger) hne
    | cons first others =>
      obtain ⟨-, hfirst, hothers⟩ := hlonger
      rw [ih hrest hothers, ← hfirst, hbyte]

/-- A zero ahead ends the text, there or before. -/
theorem TextFrom.exists_of_zero {pointer : Pointer} {distance : ℕ} (h : read (next^[distance] pointer) = 0) :
    ∃ text, TextFrom read next pointer text ∧ text.length ≤ distance := by
  induction distance generalizing pointer with
  | zero => exact ⟨[], h, Nat.le_refl 0⟩
  | succ distance ih =>
    by_cases hzero : read pointer = 0
    · exact ⟨[], hzero, Nat.zero_le _⟩
    · obtain ⟨text, htext, hlength⟩ := ih h
      exact ⟨read pointer :: text, ⟨hzero, rfl, htext⟩, Nat.succ_le_succ hlength⟩

/-- A text that starts with known bytes goes on behind them. -/
theorem TextFrom.append {pointer : Pointer} {known rest : List Byte}
    (hknown : ∀ index (hindex : index < known.length), known[index] ≠ 0 ∧
      read (next^[index] pointer) = known[index])
    (h : TextFrom read next (next^[known.length] pointer) rest) :
    TextFrom read next pointer (known ++ rest) := by
  induction known generalizing pointer with
  | nil => exact h
  | cons byte known ih =>
    have hfirst := hknown 0 (Nat.succ_pos _)
    refine ⟨hfirst.1, hfirst.2, ih (fun index hindex ↦ ?_) h⟩
    exact hknown (index + 1) (Nat.succ_lt_succ hindex)

end Text

/-- The pointer of `lodsb` after some bytes. -/
theorem iterate_add_one {width : ℕ} (pointer : BitVec width) (index : ℕ) :
    (fun pointer : BitVec width ↦ pointer + 1)^[index] pointer = pointer + .ofNat width index := by
  induction index generalizing pointer with
  | zero => exact (BitVec.add_zero pointer).symm
  | succ index ih =>
    rw [Function.iterate_succ_apply, ih, BitVec.add_assoc, Nat.add_comm index, BitVec.ofNat_add]
    rfl

end Foundation
