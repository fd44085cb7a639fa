import Mathlib.Logic.Basic
import Mathlib.Tactic.Common

/-!
# Two-level tables as partial maps

A root selects a table and the table selects an entry. Both levels are partial. The module says
what the two ways of editing such a structure do to the partial map it denotes: changing one slot
of one table changes one entry, provided no other root index leads to that table, and hanging an
empty table under an unused root index changes nothing.
-/

namespace Foundation.Radix

variable {Root Table Slot Entry : Type}

def lookup (root : Root → Option Table) (slots : Table → Slot → Option Entry) (index : Root × Slot) :
    Option Entry :=
  (root index.1).bind fun table ↦ slots table index.2

/-- No table hangs under two root indices. -/
def Unshared (root : Root → Option Table) : Prop :=
  ∀ first second table, root first = some table → root second = some table → first = second

theorem lookup_of_root {root : Root → Option Table} {slots : Table → Slot → Option Entry}
    {index : Root} {table : Table} (h : root index = some table) (slot : Slot) :
    lookup root slots (index, slot) = slots table slot := by
  simp [lookup, h]

theorem lookup_of_no_root {root : Root → Option Table} {slots : Table → Slot → Option Entry}
    {index : Root} (h : root index = none) (slot : Slot) :
    lookup root slots (index, slot) = none := by
  simp [lookup, h]

/-- Changing one slot of an unshared table leaves every other entry alone. -/
theorem lookup_change_slot {root : Root → Option Table} {before after : Table → Slot → Option Entry}
    (hunshared : Unshared root) {index : Root} {table : Table} {slot : Slot}
    (hroot : root index = some table)
    (hsame : ∀ other otherTable otherSlot, root other = some otherTable →
      (otherTable, otherSlot) ≠ (table, slot) →
        after otherTable otherSlot = before otherTable otherSlot)
    {target : Root × Slot} (htarget : target ≠ (index, slot)) :
    lookup root after target = lookup root before target := by
  obtain ⟨other, otherSlot⟩ := target
  cases hother : root other with
  | none => rw [lookup_of_no_root hother, lookup_of_no_root hother]
  | some otherTable =>
    rw [lookup_of_root hother, lookup_of_root hother]
    apply hsame other otherTable otherSlot hother
    intro heq
    obtain ⟨rfl, rfl⟩ := Prod.mk.inj heq
    exact htarget (by rw [hunshared other index otherTable hother hroot])

/-- Hanging an empty table under an unused root index leaves the map alone. -/
theorem lookup_add_table {before after : Root → Option Table}
    {slotsBefore slotsAfter : Table → Slot → Option Entry} {index : Root} {table : Table}
    (hunused : before index = none) (hadded : after index = some table)
    (hempty : ∀ slot, slotsAfter table slot = none)
    (hroot : ∀ other, other ≠ index → after other = before other)
    (hslots : ∀ other otherTable slot, before other = some otherTable →
      slotsAfter otherTable slot = slotsBefore otherTable slot) (target : Root × Slot) :
    lookup after slotsAfter target = lookup before slotsBefore target := by
  obtain ⟨other, slot⟩ := target
  by_cases hindex : other = index
  · subst hindex
    rw [lookup_of_root hadded, lookup_of_no_root hunused, hempty]
  · cases hother : before other with
    | none => rw [lookup_of_no_root hother, lookup_of_no_root ((hroot other hindex).trans hother)]
    | some otherTable =>
      rw [lookup_of_root hother, lookup_of_root ((hroot other hindex).trans hother)]
      exact hslots other otherTable slot hother

theorem Unshared.add {before after : Root → Option Table} {index : Root} {table : Table}
    (h : Unshared before) (hadded : after index = some table)
    (hfresh : ∀ other, before other ≠ some table)
    (hroot : ∀ other, other ≠ index → after other = before other) : Unshared after := by
  intro first second shared hfirst hsecond
  by_cases hfirstIndex : first = index
  · by_cases hsecondIndex : second = index
    · rw [hfirstIndex, hsecondIndex]
    · subst hfirstIndex
      rw [hadded] at hfirst
      rw [hroot second hsecondIndex, ← hfirst] at hsecond
      exact absurd hsecond (hfresh second)
  · rw [hroot first hfirstIndex] at hfirst
    by_cases hsecondIndex : second = index
    · subst hsecondIndex
      rw [hadded] at hsecond
      rw [← hsecond] at hfirst
      exact absurd hfirst (hfresh first)
    · rw [hroot second hsecondIndex] at hsecond
      exact h first second shared hfirst hsecond

end Foundation.Radix
