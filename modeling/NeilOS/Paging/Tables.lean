import NeilOS.Paging.Model
import NeilOS.Physical.FreeSet

/-!
# Page tables in memory

Entries of page-aligned tables do not overlap, so memory seen through them is a function of table
and index. `WellFormed` collects what keeps the tables from aliasing: the first directory entry
leads to the static table, no two directory entries share a table, and every other table is a
frame taken from the allocator above the reserved memory.
-/

namespace NeilOS.Paging

open Foundation Program

/-! ## Alignment and masks -/

def Aligned (address : Word) : Prop := address.toNat % 4096 = 0

instance (address : Word) : Decidable (Aligned address) := inferInstanceAs (Decidable (_ = _))

theorem pageAddressValid_iff (address : Word) : pageAddressValid address = true ↔ Aligned address := by
  have hmask : pageAddressValid address = (address &&& 4095 == 0) := rfl
  rw [hmask, beq_iff_eq, Physical.and_pageMask_eq_zero_iff, Aligned]

theorem toNat_and_frame (value : Word) : (value &&& 0xFFFFF000).toNat = value.toNat / 4096 * 4096 :=
  Word.toNat_and_high value 12

theorem toNat_and_offset (value : Word) : (value &&& 0xFFF).toNat = value.toNat % 4096 :=
  Word.toNat_and_low value 12

theorem aligned_and_frame (value : Word) : Aligned (value &&& 0xFFFFF000) := by
  rw [Aligned, toNat_and_frame]
  exact Nat.mul_mod_left _ _

theorem Aligned.and_frame {address : Word} (h : Aligned address) : address &&& 0xFFFFF000 = address := by
  apply BitVec.eq_of_toNat_eq
  rw [toNat_and_frame]
  exact Nat.div_mul_cancel (Nat.dvd_of_mod_eq_zero h)

theorem Aligned.and_offset {address : Word} (h : Aligned address) : address &&& 0xFFF = 0 := by
  apply BitVec.eq_of_toNat_eq
  rw [toNat_and_offset]
  exact h

theorem frame_or_offset (address : Word) :
    (address &&& 0xFFFFF000) ||| (address &&& 0xFFF) = address := by
  rw [← BitVec.and_or_distrib_left]
  exact BitVec.and_allOnes

theorem Aligned.frame_of_or {frame offset : Word} (h : Aligned frame) (hoffset : offset &&& 0xFFFFF000 = 0) :
    (frame ||| offset) &&& 0xFFFFF000 = frame := by
  rw [BitVec.and_or_distrib_right, h.and_frame, hoffset]
  exact BitVec.or_zero

theorem or_three_present (value : Word) : (value ||| 3) &&& 1 ≠ 0 := by
  intro hbits
  have hlow := congrArg (fun word ↦ word.getLsbD 0) hbits
  simp at hlow

theorem or_present {value : Word} (h : value &&& 1 ≠ 0) : value ||| 1 = value := by
  have hbit : value.getLsbD 0 = true := by
    by_contra hclear
    apply h
    ext index hindex
    by_cases hzero : index = 0
    · subst hzero
      simpa using hclear
    · simp [hzero]
  ext index hindex
  by_cases hzero : index = 0
  · subst hzero
    simpa using hbit
  · simp [hzero]

/-! ## Entries -/

theorem pageDirectoryIndex_eq (address : Word) :
    pageDirectoryIndex address = .ofNat 32 (directoryPart address) := by
  apply BitVec.eq_of_toNat_eq
  have hlow : (pageDirectoryIndex address).toNat = (address >>> 22).toNat % 2 ^ 10 :=
    Word.toNat_and_low (address >>> 22) 10
  rw [hlow, BitVec.toNat_ushiftRight, Nat.shiftRight_eq_div_pow, Word.toNat_ofNat_of_lt (by omega)]
  exact Nat.mod_eq_of_lt (directoryPart address).isLt

theorem pageTableIndex_eq (address : Word) : pageTableIndex address = .ofNat 32 (tablePart address) := by
  apply BitVec.eq_of_toNat_eq
  have hlow : (pageTableIndex address).toNat = (address >>> 12).toNat % 2 ^ 10 :=
    Word.toNat_and_low (address >>> 12) 10
  rw [hlow, BitVec.toNat_ushiftRight, Nat.shiftRight_eq_div_pow, Word.toNat_ofNat_of_lt (by omega)]
  rfl

theorem Aligned.toNat_entry {table : Word} (h : Aligned table) {index : ℕ} (hindex : index < 1024) :
    (entry table (.ofNat 32 index)).toNat = table.toNat + 4 * index := by
  unfold Aligned at h
  unfold entry
  bv_omega

/-- A store to one entry is seen by that entry only. -/
theorem load_store_entry {memory : Memory} {table other value : Word} (htable : Aligned table)
    (hother : Aligned other) {index otherIndex : ℕ} (hindex : index < 1024)
    (hotherIndex : otherIndex < 1024) :
    (memory.store32 (entry table (.ofNat 32 index)) value).load32 (entry other (.ofNat 32 otherIndex)) =
      if other = table ∧ otherIndex = index then value
      else memory.load32 (entry other (.ofNat 32 otherIndex)) := by
  have hentry := htable.toNat_entry hindex
  have hotherEntry := hother.toNat_entry hotherIndex
  unfold Aligned at htable hother
  split
  · rename_i hsame
    rw [hsame.1, hsame.2, Memory.load32_store32]
  · rename_i hdifferent
    apply Memory.load32_store32_of_apart
    have htables : other ≠ table → other.toNat ≠ table.toNat := fun hne heq ↦
      hne (BitVec.eq_of_toNat_eq heq)
    apply Memory.apart_of_toNat (by omega) (by omega)
    by_cases heq : other = table
    · have hindices : otherIndex ≠ index := fun hsame ↦ hdifferent ⟨heq, hsame⟩
      subst heq
      omega
    · have := htables heq
      omega

/-! ## The walk -/

theorem root_of_load {memory : Memory} {directory value : Word} {index : Fin 1024}
    (h : memory.load32 (entry directory (.ofNat 32 index)) = value) :
    root memory directory index = if value &&& 1 = 0 then none else some (value &&& 0xFFFFF000) := by
  simp only [root, h]

theorem slots_of_load {memory : Memory} {table value : Word} {index : Fin 1024}
    (h : memory.load32 (entry table (.ofNat 32 index)) = value) :
    slots memory table index = if value &&& 1 = 0 then none else some value := by
  simp only [slots, h]

theorem aligned_of_root {memory : Memory} {directory table : Word} {index : Fin 1024}
    (h : root memory directory index = some table) : Aligned table := by
  simp only [root] at h
  split at h
  · cases h
  · rw [← Option.some.inj h]
    exact aligned_and_frame _

/-- The walk sees an address only through its page. -/
theorem walk_congr_page {memory : Memory} {directory first second : Word}
    (h : first.toNat / 4096 = second.toNat / 4096) :
    walk memory directory first = walk memory directory second := by
  have hdirectory : directoryPart first = directoryPart second := by
    apply Fin.ext
    change first.toNat / 2 ^ 22 = second.toNat / 2 ^ 22
    omega
  have htable : tablePart first = tablePart second := by
    apply Fin.ext
    change first.toNat / 4096 % 1024 = second.toNat / 4096 % 1024
    rw [h]
  rw [walk, walk, hdirectory, htable]

theorem parts_ne_of_page_ne {first second : Word} (h : first.toNat / 4096 ≠ second.toNat / 4096) :
    (directoryPart first, tablePart first) ≠ (directoryPart second, tablePart second) := by
  intro heq
  have hdirectory : first.toNat / 2 ^ 22 = second.toNat / 2 ^ 22 :=
    congrArg (fun parts ↦ parts.1.val) heq
  have htable : first.toNat / 4096 % 1024 = second.toNat / 4096 % 1024 :=
    congrArg (fun parts ↦ parts.2.val) heq
  omega

/-! ## Tables that do not alias -/

/-- All entries outside one table are unchanged. -/
def SameOutside (table : Word) (before after : Memory) : Prop :=
  ∀ other, Aligned other → other ≠ table → ∀ index < 1024,
    after.load32 (entry other (.ofNat 32 index)) = before.load32 (entry other (.ofNat 32 index))

structure WellFormed (image : PagingImage) (taken : Word → Prop) (memory : Memory) : Prop where
  first : root memory image.pageDirectory 0 = some image.firstPageTable
  unshared : Radix.Unshared (root memory image.pageDirectory)
  placed : ∀ index table, root memory image.pageDirectory index = some table →
    table = image.firstPageTable ∨ taken table
  high : ∀ table, taken table → 0x200000 ≤ table.toNat

theorem sameOutside_store {memory : Memory} {table : Word} (htable : Aligned table) {index : ℕ}
    (hindex : index < 1024) (value : Word) :
    SameOutside table memory (memory.store32 (entry table (.ofNat 32 index)) value) := by
  intro other hother hne otherIndex hotherIndex
  rw [load_store_entry htable hother hindex hotherIndex, if_neg fun hsame ↦ hne hsame.1]

theorem SameOutside.trans {table : Word} {first second third : Memory}
    (h : SameOutside table first second) (hnext : SameOutside table second third) :
    SameOutside table first third := by
  intro other hother hne index hindex
  rw [hnext other hother hne index hindex, h other hother hne index hindex]

theorem SameOutside.root {table directory : Word} {before after : Memory}
    (h : SameOutside table before after) (hdirectory : Aligned directory) (hne : directory ≠ table) :
    root after directory = root before directory := by
  funext index
  exact root_of_load (h directory hdirectory hne index index.isLt)

theorem SameOutside.slots {table other : Word} {before after : Memory}
    (h : SameOutside table before after) (hother : Aligned other) (hne : other ≠ table) :
    slots after other = slots before other := by
  funext index
  exact slots_of_load (h other hother hne index index.isLt)

namespace WellFormed

variable {image : PagingImage} {taken : Word → Prop} {memory : Memory}

theorem ne_directory (h : WellFormed image taken memory) {index : Fin 1024} {table : Word}
    (hroot : root memory image.pageDirectory index = some table) : image.pageDirectory ≠ table := by
  rcases h.placed index table hroot with rfl | htaken
  · exact image.distinct
  · rintro rfl
    have hhigh := h.high _ htaken
    have hle := image.directory_le
    have hend := image.le_stack
    omega

/-- A frame that is not taken hangs under no directory entry. -/
theorem not_root (h : WellFormed image taken memory) {table : Word} (hhigh : 0x200000 ≤ table.toNat)
    (hfresh : ¬ taken table) (index : Fin 1024) :
    root memory image.pageDirectory index ≠ some table := by
  intro hroot
  rcases h.placed index table hroot with rfl | htaken
  · have hle := image.table_le
    have hend := image.le_stack
    omega
  · exact hfresh htaken

theorem congr_root (h : WellFormed image taken memory) {after : Memory}
    (hroot : root after image.pageDirectory = root memory image.pageDirectory) :
    WellFormed image taken after :=
  ⟨by rw [hroot]; exact h.first, by rw [hroot]; exact h.unshared, by rw [hroot]; exact h.placed, h.high⟩

theorem mono (h : WellFormed image taken memory) {larger : Word → Prop}
    (hlarger : ∀ table, taken table → larger table)
    (hhigh : ∀ table, larger table → 0x200000 ≤ table.toNat) : WellFormed image larger memory :=
  ⟨h.first, h.unshared, fun index table hroot ↦ (h.placed index table hroot).imp_right (hlarger table),
    hhigh⟩

/-- Changing one entry of a page table. -/
theorem store_slot (h : WellFormed image taken memory) {index slot : Fin 1024} {table : Word}
    (hroot : root memory image.pageDirectory index = some table) (value : Word) :
    root (memory.store32 (entry table (.ofNat 32 slot)) value) image.pageDirectory =
      root memory image.pageDirectory ∧
    slots (memory.store32 (entry table (.ofNat 32 slot)) value) table slot =
      (if value &&& 1 = 0 then none else some value) ∧
    ∀ target, target ≠ (index, slot) →
      Radix.lookup (root memory image.pageDirectory)
        (slots (memory.store32 (entry table (.ofNat 32 slot)) value)) target =
      Radix.lookup (root memory image.pageDirectory) (slots memory) target := by
  have htable := aligned_of_root hroot
  have hsame := @sameOutside_store memory table htable slot slot.isLt value
  refine ⟨hsame.root image.directory_aligned (h.ne_directory hroot), ?_, ?_⟩
  · apply slots_of_load
    rw [load_store_entry htable htable slot.isLt slot.isLt, if_pos ⟨rfl, rfl⟩]
  · intro target htarget
    apply Radix.lookup_change_slot h.unshared hroot _ htarget
    intro other otherTable otherSlot hother hne
    by_cases heq : otherTable = table
    · subst heq
      have hslot : otherSlot.val ≠ slot.val := fun hval ↦ hne (by rw [Fin.ext hval])
      apply slots_of_load
      rw [load_store_entry htable htable slot.isLt otherSlot.isLt, if_neg fun hboth ↦ hslot hboth.2]
    · rw [hsame.slots (aligned_of_root hother) heq]

/-- Writing the page-table entry of an address changes the walk at its page only. -/
theorem store_entry (h : WellFormed image taken memory) {address table : Word}
    (hroot : root memory image.pageDirectory (directoryPart address) = some table) (value : Word)
    {after : Memory}
    (hafter : after = memory.store32 (entry table (.ofNat 32 (tablePart address))) value) :
    root after image.pageDirectory = root memory image.pageDirectory ∧
      walk after image.pageDirectory address = (if value &&& 1 = 0 then none else some value) ∧
      ∀ other : Word, other.toNat / 4096 ≠ address.toNat / 4096 →
        walk after image.pageDirectory other = walk memory image.pageDirectory other := by
  obtain ⟨hsame, hslot, hothers⟩ := @store_slot _ _ _ h _ (tablePart address) _ hroot value
  rw [← hafter] at hsame hslot hothers
  refine ⟨hsame, ?_, fun other hpage ↦ ?_⟩
  · rw [walk, hsame, Radix.lookup_of_root hroot, hslot]
  · rw [walk, hsame]
    exact hothers _ (parts_ne_of_page_ne hpage)

/-- While a frame that is not taken is written, the walk does not change. -/
theorem walk_of_fresh (h : WellFormed image taken memory) {after : Memory} {table : Word}
    (hhigh : 0x200000 ≤ table.toNat) (hfresh : ¬ taken table)
    (hsame : SameOutside table memory after) :
    root after image.pageDirectory = root memory image.pageDirectory ∧
      ∀ address, walk after image.pageDirectory address = walk memory image.pageDirectory address := by
  have hdirectory : image.pageDirectory ≠ table := by
    rintro rfl
    have hle := image.directory_le
    have hend := image.le_stack
    omega
  have hroot := hsame.root image.directory_aligned hdirectory
  refine ⟨hroot, fun address ↦ ?_⟩
  unfold walk Radix.lookup
  rw [hroot]
  cases hentry : root memory image.pageDirectory (directoryPart address) with
  | none => rfl
  | some other =>
    have hne : other ≠ table := fun heq ↦ h.not_root hhigh hfresh _ (heq ▸ hentry)
    change slots after other _ = slots memory other _
    rw [hsame.slots (aligned_of_root hentry) hne]

/-- Hanging an empty frame under an absent directory entry keeps the walk. -/
theorem hang_table (h : WellFormed image taken memory) {index : Fin 1024} {table : Word}
    (hunused : root memory image.pageDirectory index = none) (haligned : Aligned table)
    (hhigh : 0x200000 ≤ table.toNat) (hfresh : ¬ taken table)
    (hzero : ∀ slot < 1024, memory.load32 (entry table (.ofNat 32 slot)) = 0) {after : Memory}
    (hafter : after = memory.store32 (entry image.pageDirectory (.ofNat 32 index))
      ((table &&& 0xFFFFF000) ||| 1 ||| 2)) :
    WellFormed image (fun other ↦ taken other ∨ other = table) after ∧
      root after image.pageDirectory index = some table ∧
      ∀ address, walk after image.pageDirectory address = walk memory image.pageDirectory address := by
  have hdirectory : Aligned image.pageDirectory := image.directory_aligned
  have hsame : SameOutside image.pageDirectory memory after := by
    rw [hafter]
    exact sameOutside_store hdirectory index.isLt _
  have hadded : root after image.pageDirectory index = some table := by
    have hload : after.load32 (entry image.pageDirectory (.ofNat 32 index)) = table ||| 3 := by
      rw [hafter, load_store_entry hdirectory hdirectory index.isLt index.isLt, if_pos ⟨rfl, rfl⟩,
        haligned.and_frame, BitVec.or_assoc]
      rfl
    rw [root_of_load hload, if_neg (or_three_present table), haligned.frame_of_or (by decide)]
  have hothers (other : Fin 1024) (hne : other ≠ index) :
      root after image.pageDirectory other = root memory image.pageDirectory other := by
    apply root_of_load
    have hval : other.val ≠ index.val := fun hval ↦ hne (Fin.ext hval)
    rw [hafter, load_store_entry hdirectory hdirectory index.isLt other.isLt,
      if_neg fun hboth ↦ hval hboth.2]
  have hfirst : index ≠ 0 := by
    rintro rfl
    rw [h.first] at hunused
    cases hunused
  have htable : table ≠ image.pageDirectory := by
    rintro rfl
    have hle := image.directory_le
    have hend := image.le_stack
    omega
  refine ⟨⟨?_, ?_, ?_, ?_⟩, hadded, ?_⟩
  · rw [hothers 0 hfirst.symm]
    exact h.first
  · exact h.unshared.add hadded (fun other ↦ h.not_root hhigh hfresh other) hothers
  · intro other otherTable hroot
    by_cases hne : other = index
    · subst hne
      rw [hadded] at hroot
      exact .inr (.inr (Option.some.inj hroot).symm)
    · rw [hothers other hne] at hroot
      exact (h.placed other otherTable hroot).imp_right .inl
  · rintro other (htaken | rfl)
    · exact h.high other htaken
    · exact hhigh
  · intro address
    apply Radix.lookup_add_table hunused hadded _ hothers
    · intro other otherTable slot hroot
      rw [hsame.slots (aligned_of_root hroot) (h.ne_directory hroot).symm]
    · intro slot
      rw [hsame.slots haligned htable, slots_of_load (hzero slot slot.isLt)]
      rfl

end WellFormed

end NeilOS.Paging
