import NeilOS.Physical.Model
import Mathlib.Data.Finset.Max
import Mathlib.Data.Finset.Union
import Mathlib.Order.Interval.Finset.Nat
import Mathlib.Tactic.Common

/-!
# The allocator as a finite set of free pages

The abstract state is the set `free` of free page numbers. Allocating erases a page, freeing inserts
one, reserving removes a set of pages, and the counter is the cardinality throughout.
`physicalInit` leaves exactly the pages from 2 MiB on.
-/

namespace NeilOS.Physical

open Foundation

/-- The free pages, read off the bitmap. -/
def free (state : Physical) : Finset ℕ := state.pageBitMap.unmarked physicalPageCount

/-- The counter agrees with the bitmap. -/
def Counted (state : Physical) : Prop := state.freePages = .ofNat 32 state.free.card

@[simp]
theorem physicalPageCount_eq : physicalPageCount = 16384 := rfl

theorem mem_free {state : Physical} {page : ℕ} :
    page ∈ state.free ↔ page < 16384 ∧ state.isUsed page = false :=
  Bitmap.mem_unmarked

theorem card_free_le (state : Physical) : state.free.card ≤ 16384 := by
  have hsubset : state.free ⊆ Finset.range 16384 := by
    intro page hpage
    exact Finset.mem_range.mpr (mem_free.mp hpage).1
  calc
    state.free.card ≤ (Finset.range 16384).card := Finset.card_le_card hsubset
    _ = 16384 := Finset.card_range 16384

theorem Counted.toNat {state : Physical} (h : state.Counted) :
    state.freePages.toNat = state.free.card := by
  have hle := state.card_free_le
  rw [h, Word.toNat_ofNat_of_lt (by omega)]

/-! ## Taking and returning one page -/

/-- Mark a page and count down, as `reserve_range` and `physical_alloc_page` do. -/
def take (page : ℕ) (state : Physical) : Physical :=
  { state.markUsed page with freePages := state.freePages - 1 }

/-- Clear a page and count up, as `physical_init` and `physical_free_page` do. -/
def give (page : ℕ) (state : Physical) : Physical :=
  { state.markFree page with freePages := state.freePages + 1 }

theorem free_take (page : ℕ) (state : Physical) : (state.take page).free = state.free.erase page :=
  Bitmap.unmarked_mark _ _ _

theorem free_give {page : ℕ} (hpage : page < 16384) (state : Physical) :
    (state.give page).free = insert page state.free :=
  Bitmap.unmarked_clear hpage _

theorem Counted.take {state : Physical} (h : state.Counted) {page : ℕ} (hpage : page ∈ state.free) :
    (state.take page).Counted := by
  have hpositive : 0 < state.free.card := Finset.card_pos.mpr ⟨page, hpage⟩
  have hcount : state.freePages - 1 = BitVec.ofNat 32 (state.free.card - 1) := by
    rw [h]
    bv_omega
  unfold Counted
  rw [free_take, Finset.card_erase_of_mem hpage]
  exact hcount

theorem Counted.give {state : Physical} (h : state.Counted) {page : ℕ} (hpage : page < 16384)
    (hused : page ∉ state.free) : (state.give page).Counted := by
  have hcount : state.freePages + 1 = BitVec.ofNat 32 (state.free.card + 1) := by
    rw [h, BitVec.ofNat_add]
    rfl
  unfold Counted
  rw [free_give hpage, Finset.card_insert_of_notMem hused]
  exact hcount

theorem give_take {state : Physical} {page : ℕ} (hpage : page ∈ state.free) :
    (state.take page).give page = state := by
  have hbits : (state.pageBitMap.mark page).clear page = state.pageBitMap :=
    Bitmap.clear_mark (mem_free.mp hpage).2
  have hcount : state.freePages - 1 + 1 = state.freePages := BitVec.sub_add_cancel ..
  calc
    (state.take page).give page =
        ⟨(state.pageBitMap.mark page).clear page, state.freePages - 1 + 1⟩ := rfl
    _ = state := by rw [hbits, hcount]

/-! ## Reserving -/

/-- A set of pages has been marked, and the counter has gone down by those that were free. -/
structure PagesReserved (pages : Finset ℕ) (before after : Physical) : Prop where
  bits : Bitmap.Adds pages before.pageBitMap after.pageBitMap
  counter : after.freePages =
    before.freePages - .ofNat 32 (Bitmap.fresh pages before.pageBitMap).card

theorem pagesReserved_empty (state : Physical) : PagesReserved ∅ state state :=
  ⟨Bitmap.adds_empty state.pageBitMap, (BitVec.sub_zero state.freePages).symm⟩

theorem PagesReserved.trans {first second : Finset ℕ} {before middle after : Physical}
    (h : PagesReserved first before middle) (hnext : PagesReserved second middle after) :
    PagesReserved (first ∪ second) before after := by
  refine ⟨h.bits.trans hnext.bits, ?_⟩
  rw [hnext.counter, h.counter, h.bits.card_fresh_union, BitVec.ofNat_add, BitVec.sub_sub]

/-- The reserved pages decide the state. -/
theorem PagesReserved.unique {pages : Finset ℕ} {before first second : Physical}
    (hfirst : PagesReserved pages before first) (hsecond : PagesReserved pages before second) :
    first = second := by
  have hbits : first.pageBitMap = second.pageBitMap := hfirst.bits.unique hsecond.bits
  have hcount : first.freePages = second.freePages := hfirst.counter.trans hsecond.counter.symm
  calc
    first = ⟨first.pageBitMap, first.freePages⟩ := rfl
    _ = ⟨second.pageBitMap, second.freePages⟩ := by rw [hbits, hcount]

theorem PagesReserved.free_eq {pages : Finset ℕ} {before after : Physical}
    (h : PagesReserved pages before after) : after.free = before.free \ pages :=
  h.bits.unmarked physicalPageCount

/-- Reserving pages of the memory keeps the counter in step. -/
theorem PagesReserved.counted {pages : Finset ℕ} {before after : Physical}
    (h : PagesReserved pages before after) (hpages : pages ⊆ Finset.range 16384)
    (hcounted : before.Counted) : after.Counted := by
  have hfresh : Bitmap.fresh pages before.pageBitMap = pages ∩ before.free := by
    ext page
    rw [Bitmap.fresh, Finset.mem_filter, Finset.mem_inter, mem_free]
    exact and_congr_right fun hpage ↦
      (and_iff_right (Finset.mem_range.mp (hpages hpage))).symm
  have hcard : (pages ∩ before.free).card + after.free.card = before.free.card := by
    rw [h.free_eq, Finset.inter_comm]
    exact Finset.card_inter_add_card_sdiff before.free pages
  unfold Counted
  rw [h.counter, hfresh, hcounted, ← hcard, BitVec.ofNat_add, BitVec.add_comm, BitVec.add_sub_cancel]

theorem reservePage_reserved (page : ℕ) (state : Physical) :
    PagesReserved {page} state (state.reservePage page) := by
  unfold reservePage
  by_cases hused : state.isUsed page = true
  · have htest : ¬ Bitmap.test state.pageBitMap page = false := by
      rw [Bool.not_eq_false]
      exact hused
    rw [if_pos hused]
    constructor
    · intro other
      refine (or_iff_right_of_imp fun hother ↦ ?_).symm
      rw [Finset.mem_singleton.mp hother]
      exact hused
    · rw [Bitmap.fresh, Finset.filter_singleton, if_neg htest]
      exact (BitVec.sub_zero state.freePages).symm
  · have htest : Bitmap.test state.pageBitMap page = false := Bool.eq_false_iff.mpr hused
    rw [if_neg hused]
    constructor
    · exact Bitmap.adds_mark state.pageBitMap page
    · rw [Bitmap.fresh, Finset.filter_singleton, if_pos htest]
      rfl

/-- The pages of the memory that begin in `[low, high)`. -/
def pagesBetween (low high : ℕ) : Finset ℕ :=
  (Finset.range 16384).filter fun page ↦ low ≤ page * 4096 ∧ page * 4096 < high

theorem mem_pagesBetween {low high page : ℕ} :
    page ∈ pagesBetween low high ↔ page < 16384 ∧ low ≤ page * 4096 ∧ page * 4096 < high := by
  rw [pagesBetween, Finset.mem_filter, Finset.mem_range]

theorem pagesBetween_eq_empty {low high : ℕ} (h : high ≤ low ∨ 16384 * 4096 ≤ low) :
    pagesBetween low high = ∅ := by
  apply Finset.eq_empty_of_forall_notMem
  intro page hpage
  have := mem_pagesBetween.mp hpage
  omega

theorem pagesBetween_eq_union {low high : ℕ} (haligned : 4096 ∣ low) (hlow : low < 16384 * 4096)
    (hhigh : low < high) :
    pagesBetween low high = {low / 4096} ∪ pagesBetween (low + 4096) high := by
  ext page
  rw [Finset.mem_union, Finset.mem_singleton, mem_pagesBetween, mem_pagesBetween]
  omega

/-- The loop reserves the pages from `address` up to `stop`. -/
theorem reserveLoop_reserved (stop address : Word) (state : Physical)
    (haligned : 4096 ∣ address.toNat) :
    PagesReserved (pagesBetween address.toNat stop.toNat) state (state.reserveLoop stop address) := by
  fun_induction reserveLoop stop address state with
  | case1 address state hlt hend =>
    rw [physicalPageCount_eq] at hend
    rw [pagesBetween_eq_empty (.inr (by omega))]
    exact pagesReserved_empty state
  | case2 address state hlt hend ih =>
    rw [physicalPageCount_eq] at hend
    have hstop : address.toNat < stop.toNat := hlt
    have hnext : (address + 4096).toNat = address.toNat + 4096 := by bv_omega
    rw [pagesBetween_eq_union haligned (by omega) hstop, ← hnext]
    apply (reservePage_reserved (address.toNat / 4096) state).trans
    apply ih
    rw [hnext]
    exact Nat.dvd_add haligned (Nat.dvd_refl 4096)
  | case3 address state hlt =>
    have hstop : stop.toNat ≤ address.toNat := by simpa [BitVec.lt_def] using hlt
    rw [pagesBetween_eq_empty (.inl hstop)]
    exact pagesReserved_empty state

theorem toNat_roundDown (word : Word) :
    (word &&& ~~~4095).toNat = word.toNat / 4096 * 4096 :=
  Word.toNat_and_high word 12

/-- The pages that `reserve_range` marks, with both ends as it rounds them. -/
def rangePages (start stop : Word) : Finset ℕ :=
  pagesBetween (start &&& ~~~4095).toNat ((stop + 4096 - 1) &&& ~~~4095).toNat

theorem reserveRange_reserved (start stop : Word) (state : Physical) :
    PagesReserved (rangePages start stop) state (state.reserveRange start stop) := by
  apply reserveLoop_reserved
  rw [toNat_roundDown]
  exact Dvd.intro_left _ rfl

/-- Rounding up an end in the last page of the address space gives zero. -/
theorem mem_rangePages {start stop : Word} {page : ℕ} :
    page ∈ rangePages start stop ↔ page < 16384 ∧ start.toNat / 4096 ≤ page ∧
      page * 4096 < stop.toNat ∧ stop.toNat ≤ 0xFFFFF000 := by
  rw [rangePages, mem_pagesBetween, toNat_roundDown, toNat_roundDown]
  by_cases hstop : stop.toNat ≤ 0xFFFFF000
  · have hround : (stop + 4096 - 1).toNat = stop.toNat + 4095 := by bv_omega
    rw [hround]
    omega
  · have hround : (stop + 4096 - 1).toNat < 4096 := by bv_omega
    omega

theorem rangePages_subset (start stop : Word) : rangePages start stop ⊆ Finset.range 16384 :=
  Finset.filter_subset _ _

/-- A list of reservations, one after the other. -/
def reserveAll (ranges : List (Word × Word)) (state : Physical) : Physical :=
  ranges.foldl (fun state range ↦ state.reserveRange range.1 range.2) state

theorem reserveAll_reserved (ranges : List (Word × Word)) (state : Physical) :
    PagesReserved (ranges.toFinset.biUnion fun range ↦ rangePages range.1 range.2) state
      (state.reserveAll ranges) := by
  induction ranges generalizing state with
  | nil => exact pagesReserved_empty state
  | cons range ranges ih =>
    rw [List.toFinset_cons, Finset.biUnion_insert]
    apply (reserveRange_reserved range.1 range.2 state).trans
    exact ih (state.reserveRange range.1 range.2)

/-! ## Initialisation -/

theorem freeAll_succ (count : ℕ) (state : Physical) :
    state.freeAll (count + 1) = (state.freeAll count).give count := by
  simp only [freeAll, List.range_succ, List.foldl_append]
  rfl

theorem isUsed_give (page other : ℕ) (state : Physical) :
    (state.give page).isUsed other = (decide (other ≠ page) && state.isUsed other) :=
  Bitmap.test_clear _ _ _

theorem freeAll_spec (count : ℕ) (state : Physical) :
    (∀ page < count, (state.freeAll count).isUsed page = false) ∧
      (state.freeAll count).freePages = state.freePages + .ofNat 32 count := by
  induction count with
  | zero => simp [freeAll]
  | succ count ih =>
    rw [freeAll_succ]
    constructor
    · intro page hpage
      rw [isUsed_give]
      by_cases hlast : page = count
      · simp [hlast]
      · simp [ih.1 page (by omega)]
    · calc
        ((state.freeAll count).give count).freePages = (state.freeAll count).freePages + 1 := rfl
        _ = state.freePages + .ofNat 32 count + 1 := by rw [ih.2]
        _ = state.freePages + .ofNat 32 (count + 1) := by
          rw [BitVec.ofNat_add, BitVec.add_assoc]
          rfl

/-- The state in which `physical_init` makes its first reservation. -/
def unreserved (state : Physical) : Physical :=
  freeAll physicalPageCount { state.markAll with freePages := 0 }

/-- Before the reservations every page is free and counted. -/
theorem unreserved_spec (state : Physical) :
    state.unreserved.free = Finset.range 16384 ∧ state.unreserved.Counted := by
  obtain ⟨hbits, hcount⟩ := freeAll_spec physicalPageCount { state.markAll with freePages := 0 }
  have hfree : state.unreserved.free = Finset.range 16384 := by
    ext page
    rw [mem_free, Finset.mem_range]
    exact ⟨And.left, fun hpage ↦ ⟨hpage, hbits page hpage⟩⟩
  refine ⟨hfree, ?_⟩
  calc
    state.unreserved.freePages = 0 + .ofNat 32 physicalPageCount := hcount
    _ = .ofNat 32 physicalPageCount := BitVec.zero_add _
    _ = .ofNat 32 state.unreserved.free.card := by
      rw [hfree, Finset.card_range, physicalPageCount_eq]

/-- The ranges that `physical_init` reserves. -/
def bootRanges (image : Image) : List (Word × Word) :=
  [(0x00000000, 0x00001000), (0x00000000, 0x00100000), (0x9000, image.kernelEnd),
    (0x100000, 0x200000), (0x00098000, 0x000A0000)]

theorem physicalInit_eq (image : Image) (state : Physical) :
    physicalInit image state = state.unreserved.reserveAll (bootRanges image) :=
  rfl

/-- The kernel image lies below 1 MiB, so exactly the first 2 MiB are reserved. -/
theorem pages_bootRanges (image : Image) :
    ((bootRanges image).toFinset.biUnion fun range ↦ rangePages range.1 range.2) =
      Finset.range 512 := by
  have hend := image.le_stack
  ext page
  simp only [bootRanges, List.toFinset_cons, List.toFinset_nil, Finset.biUnion_insert,
    Finset.biUnion_empty, Finset.mem_union, Finset.notMem_empty, or_false, mem_rangePages,
    Finset.mem_range, BitVec.ofNat_eq_ofNat, BitVec.toNat_ofNat]
  omega

theorem physicalInit_spec (image : Image) (state : Physical) :
    (physicalInit image state).free = Finset.Ico 512 16384 ∧ (physicalInit image state).Counted := by
  obtain ⟨hfree, hcounted⟩ := unreserved_spec state
  have hreserved := reserveAll_reserved (bootRanges image) state.unreserved
  rw [pages_bootRanges, ← physicalInit_eq] at hreserved
  constructor
  · rw [hreserved.free_eq, hfree]
    ext page
    rw [Finset.mem_sdiff, Finset.mem_range, Finset.mem_range, Finset.mem_Ico]
    omega
  · apply hreserved.counted ?_ hcounted
    exact Finset.range_subset_range.mpr (by decide)

/-! ## Allocating and freeing -/

/-- The search finds the least free page, given that none lies below its first page. -/
theorem physicalAllocPage_spec {state : Physical} (hlow : ∀ page ∈ state.free, 256 ≤ page) :
    (state.free = ∅ ∧ state.physicalAllocPage = (0, state)) ∨
      ∃ hfree : state.free.Nonempty, state.physicalAllocPage =
        (.ofNat 32 (state.free.min' hfree * 4096), state.take (state.free.min' hfree)) := by
  unfold physicalAllocPage
  cases hfind : (List.range' 256 (physicalPageCount - 256)).find? fun page ↦ !state.isUsed page with
  | none =>
    rw [List.find?_range'_eq_none] at hfind
    refine .inl ⟨Finset.eq_empty_of_forall_notMem fun page hpage ↦ ?_, rfl⟩
    obtain ⟨hbound, hclear⟩ := mem_free.mp hpage
    have hused := hfind page (hlow page hpage) (by rw [physicalPageCount_eq]; omega)
    simp [hclear] at hused
  | some page =>
    rw [List.find?_range'_eq_some] at hfind
    obtain ⟨hclear, hrange, hfirst⟩ := hfind
    rw [physicalPageCount_eq, List.mem_range'_1] at hrange
    have hmem : page ∈ state.free := mem_free.mpr ⟨by omega, by simpa using hclear⟩
    have hmin : state.free.min' ⟨page, hmem⟩ = page := by
      apply le_antisymm (Finset.min'_le _ _ hmem)
      apply Finset.le_min'
      intro other hother
      by_contra hlt
      have hused := hfirst other (hlow other hother) (by omega)
      simp [(mem_free.mp hother).2] at hused
    refine .inr ⟨⟨page, hmem⟩, ?_⟩
    rw [hmin]
    rfl

/-- When a call `physical_free_page(address)` gets past its guards. -/
def Frees (state : Physical) (address : Word) : Prop :=
  address.toNat % 4096 = 0 ∧ 256 ≤ address.toNat / 4096 ∧ address.toNat / 4096 < 16384 ∧
    address.toNat / 4096 ∉ state.free

theorem and_pageMask_eq_zero_iff (address : Word) :
    address &&& 4095 = 0 ↔ address.toNat % 4096 = 0 := by
  have hlow : (address &&& 4095).toNat = address.toNat % 4096 := Word.toNat_and_low address 12
  rw [← hlow, ← BitVec.toNat_inj]
  rfl

theorem physicalFreePage_of_frees {state : Physical} {address : Word} (h : state.Frees address) :
    physicalFreePage address state = state.give (address.toNat / 4096) := by
  obtain ⟨haligned, hhigh, hbound, hused⟩ := h
  have hmask : ¬ (address &&& 4095 ≠ 0) := not_not_intro ((and_pageMask_eq_zero_iff address).mpr haligned)
  have haddress : ¬ address < 0x00100000 := by bv_omega
  have hset : state.isUsed (address.toNat / 4096) = true := by
    by_contra hclear
    exact hused (mem_free.mpr ⟨hbound, by simpa using hclear⟩)
  rw [physicalFreePage, if_neg hmask, if_neg (by simpa using hbound), if_neg haddress,
    if_neg (by simp [hset])]
  rfl

theorem physicalFreePage_of_not_frees {state : Physical} {address : Word}
    (h : ¬ state.Frees address) : physicalFreePage address state = state := by
  dsimp only [physicalFreePage]
  split_ifs with hmask hbound haddress hclear
  · rfl
  · rfl
  · rfl
  · rfl
  · exfalso
    apply h
    refine ⟨(and_pageMask_eq_zero_iff address).mp (not_not.mp hmask), ?_, by simpa using hbound, ?_⟩
    · bv_omega
    · intro hfree
      simp [(mem_free.mp hfree).2] at hclear

end NeilOS.Physical
