import NeilOS.Foundation.Run
import NeilOS.Physical.FreeSet

/-!
# Runs of the physical page allocator

After `physical_init` the allocator may be called in any order and with any address to free. The
history of a run decides which addresses are `owned`: handed out and not freed since.
-/

namespace NeilOS.Physical

open Foundation

inductive Event where
  | alloc (result : Word)
  | free (address : Word)
deriving DecidableEq

def Initial (image : Image) (state : Physical) : Prop :=
  ∃ before, state = physicalInit image before

inductive Step : Physical → Event → Physical → Prop where
  | alloc (state : Physical) :
      Step state (.alloc state.physicalAllocPage.1) state.physicalAllocPage.2
  | free (state : Physical) (address : Word) :
      Step state (.free address) (physicalFreePage address state)

/-- The address was returned by an allocation and has not been freed since. -/
def owned (address : Word) : List Event → Bool
  | [] => false
  | .alloc result :: older => (result ≠ 0 ∧ result = address) || owned address older
  | .free freed :: older => freed ≠ address && owned address older

/-! ## The invariant of every run -/

structure Invariant (history : List Event) (state : Physical) : Prop where
  counted : state.Counted
  low : ∀ page ∈ state.free, 256 ≤ page
  owned : ∀ address, owned address history = true → state.Frees address

/-- The address of a page number. -/
theorem toNat_pageAddress {page : ℕ} (h : page < 16384) :
    (BitVec.ofNat 32 (page * 4096)).toNat = page * 4096 :=
  Word.toNat_ofNat_of_lt (by omega)

theorem pageAddress_ne_zero {page : ℕ} (hlow : 256 ≤ page) (hhigh : page < 16384) :
    BitVec.ofNat 32 (page * 4096) ≠ 0 := by
  bv_omega

theorem eq_of_page_eq {first second : Word} (hfirst : first.toNat % 4096 = 0)
    (hsecond : second.toNat % 4096 = 0) (hpage : first.toNat / 4096 = second.toNat / 4096) :
    first = second := by
  bv_omega

theorem Invariant.initial {image : Image} {state : Physical} (h : Initial image state) :
    Invariant [] state := by
  obtain ⟨before, rfl⟩ := h
  obtain ⟨hfree, hcounted⟩ := physicalInit_spec image before
  refine ⟨hcounted, ?_, by simp [Physical.owned]⟩
  intro page hpage
  rw [hfree, Finset.mem_Ico] at hpage
  omega

/-- What one allocation does, in every state the invariant allows. -/
theorem Invariant.alloc_cases {history : List Event} {state : Physical} (h : Invariant history state) :
    (state.free = ∅ ∧ state.physicalAllocPage = (0, state)) ∨
      ∃ page ∈ state.free, (∀ other ∈ state.free, page ≤ other) ∧ 256 ≤ page ∧ page < 16384 ∧
        state.physicalAllocPage = (.ofNat 32 (page * 4096), state.take page) := by
  rcases physicalAllocPage_spec h.low with hempty | ⟨hfree, halloc⟩
  · exact .inl hempty
  · have hmem := state.free.min'_mem hfree
    exact .inr ⟨_, hmem, fun other hother ↦ Finset.min'_le _ _ hother, h.low _ hmem,
      (mem_free.mp hmem).1, halloc⟩

theorem Invariant.alloc {history : List Event} {state : Physical} (h : Invariant history state) :
    Invariant (.alloc state.physicalAllocPage.1 :: history) state.physicalAllocPage.2 := by
  rcases h.alloc_cases with ⟨-, halloc⟩ | ⟨page, hmem, -, hlow, hhigh, halloc⟩
  · rw [halloc]
    exact ⟨h.counted, h.low, fun address howned ↦ h.owned address (by simpa [Physical.owned] using howned)⟩
  · rw [halloc]
    refine ⟨h.counted.take hmem, ?_, ?_⟩
    · intro other hother
      rw [free_take, Finset.mem_erase] at hother
      exact h.low other hother.2
    · intro address howned
      unfold Frees
      simp only [free_take, Finset.mem_erase]
      rw [Physical.owned, Bool.or_eq_true, decide_eq_true_eq] at howned
      rcases howned with ⟨-, rfl⟩ | howned
      · rw [toNat_pageAddress hhigh]
        omega
      · obtain ⟨haligned, hpageLow, hpageHigh, hused⟩ := h.owned address howned
        exact ⟨haligned, hpageLow, hpageHigh, fun hother ↦ hused hother.2⟩

theorem Invariant.free {history : List Event} {state : Physical} (h : Invariant history state)
    (address : Word) : Invariant (.free address :: history) (physicalFreePage address state) := by
  by_cases hfrees : state.Frees address
  · rw [physicalFreePage_of_frees hfrees]
    obtain ⟨haligned, hlow, hhigh, hused⟩ := hfrees
    refine ⟨h.counted.give hhigh hused, ?_, ?_⟩
    · intro page hpage
      rw [free_give hhigh, Finset.mem_insert] at hpage
      rcases hpage with rfl | hpage
      · exact hlow
      · exact h.low page hpage
    · intro other howned
      rw [Physical.owned, Bool.and_eq_true, decide_eq_true_eq] at howned
      obtain ⟨hotherAligned, hotherLow, hotherHigh, hotherUsed⟩ := h.owned other howned.2
      refine ⟨hotherAligned, hotherLow, hotherHigh, ?_⟩
      rw [free_give hhigh, Finset.mem_insert]
      rintro (hpage | hpage)
      · exact howned.1 (eq_of_page_eq haligned hotherAligned hpage.symm)
      · exact hotherUsed hpage
  · rw [physicalFreePage_of_not_frees hfrees]
    refine ⟨h.counted, h.low, fun other howned ↦ h.owned other ?_⟩
    rw [Physical.owned, Bool.and_eq_true] at howned
    exact howned.2

theorem invariant_of_run {image : Image} {history : List Event} {state : Physical}
    (h : Run (Initial image) Step history state) : Invariant history state := by
  apply h.induct Invariant
  · exact fun _ hinitial ↦ .initial hinitial
  · intro history before event after _ hbefore hstep
    cases hstep with
    | alloc => exact hbefore.alloc
    | free address => exact hbefore.free address

/-! ## Refinement of a finite set -/

theorem owned_append_alloc {address : Word} (hnonzero : address ≠ 0) {newer older : List Event}
    (hkept : .free address ∉ newer) : owned address (newer ++ .alloc address :: older) = true := by
  induction newer with
  | nil => simpa [owned] using .inl hnonzero
  | cons event newer ih =>
    rw [List.mem_cons, not_or] at hkept
    have hrest := ih hkept.2
    cases event with
    | alloc result => simp [owned, hrest]
    | free freed =>
      have hne : freed ≠ address := fun heq ↦ hkept.1 (by rw [heq])
      simp [owned, hrest, hne]

theorem Invariant.freePages_eq_zero_iff {history : List Event} {state : Physical}
    (h : Invariant history state) : state.freePages = 0 ↔ state.free = ∅ := by
  rw [← Finset.card_eq_zero, ← h.counted.toNat, ← BitVec.toNat_inj]
  rfl

/-- Freeing a page that was just allocated restores the whole state. -/
theorem physicalFreePage_take {state : Physical} {page : ℕ} (hmem : page ∈ state.free)
    (hlow : 256 ≤ page) : physicalFreePage (.ofNat 32 (page * 4096)) (state.take page) = state := by
  have hhigh := (mem_free.mp hmem).1
  have hpage : (BitVec.ofNat 32 (page * 4096)).toNat / 4096 = page := by
    rw [toNat_pageAddress hhigh, Nat.mul_div_cancel _ (by decide)]
  have hfrees : (state.take page).Frees (.ofNat 32 (page * 4096)) := by
    refine ⟨by rw [toNat_pageAddress hhigh]; omega, by omega, by omega, ?_⟩
    rw [hpage, free_take]
    exact Finset.notMem_erase page _
  calc
    physicalFreePage (.ofNat 32 (page * 4096)) (state.take page) = (state.take page).give page := by
      rw [physicalFreePage_of_frees hfrees, hpage]
    _ = state := give_take hmem

/-- An owned address is not handed out again. -/
theorem Invariant.alloc_ne_owned {history : List Event} {state : Physical}
    (h : Invariant history state) {address : Word} (hnonzero : address ≠ 0)
    (howned : Physical.owned address history = true) : state.physicalAllocPage.1 ≠ address := by
  rintro rfl
  rcases h.alloc_cases with ⟨-, halloc⟩ | ⟨page, hmem, -, -, hhigh, halloc⟩
  · rw [halloc] at hnonzero
    exact hnonzero rfl
  · have hused := (h.owned _ howned).2.2.2
    rw [halloc, toNat_pageAddress hhigh, Nat.mul_div_cancel _ (by decide)] at hused
    exact hused hmem

/-- The allocator refines the finite set of free pages, in every state of every run. -/
theorem bitmap_refines_free_set {image : Image} {history : List Event} {state : Physical}
    (h : Run (Initial image) Step history state) :
    (∀ page < 16384, page ∈ state.free ↔
      (state.pageBitMap (page / 32)).getLsbD (page % 32) = false) ∧
    state.freePages.toNat = state.free.card ∧
    (∀ page < 256, page ∉ state.free) ∧
    (state.physicalAllocPage.1 = 0 ↔ state.freePages = 0) ∧
    (state.freePages = 0 → state.physicalAllocPage.2 = state) ∧
    (∀ hfree : state.free.Nonempty,
      state.physicalAllocPage.1 = .ofNat 32 (4096 * state.free.min' hfree) ∧
      state.physicalAllocPage.1.toNat = 4096 * state.free.min' hfree ∧
      state.physicalAllocPage.2.free = state.free.erase (state.free.min' hfree)) ∧
    (∀ address, physicalFreePage address state = state ∨
      (address.toNat = 4096 * (address.toNat / 4096) ∧ address.toNat / 4096 ∉ state.free ∧
        (physicalFreePage address state).free = insert (address.toNat / 4096) state.free)) ∧
    (∀ newer address older, history = .alloc address :: (newer ++ .alloc address :: older) →
      address ≠ 0 → .free address ∈ newer) ∧
    (state.physicalAllocPage.1 ≠ 0 →
      physicalFreePage state.physicalAllocPage.1 state.physicalAllocPage.2 = state) := by
  have hinv := invariant_of_run h
  refine ⟨?_, hinv.counted.toNat, ?_, ?_, ?_, ?_, ?_, ?_, ?_⟩
  · intro page hpage
    rw [mem_free, isUsed, Bitmap.test_eq_getLsbD]
    exact and_iff_right hpage
  · intro page hpage hmem
    have hlow := hinv.low page hmem
    omega
  · rw [hinv.freePages_eq_zero_iff]
    rcases hinv.alloc_cases with ⟨hempty, halloc⟩ | ⟨page, hmem, -, hlow, hhigh, halloc⟩
    · simp [halloc, hempty]
    · rw [halloc]
      exact iff_of_false (pageAddress_ne_zero hlow hhigh) (Finset.ne_empty_of_mem hmem)
  · intro hnone
    rcases hinv.alloc_cases with ⟨-, halloc⟩ | ⟨page, hmem, -⟩
    · rw [halloc]
    · exact absurd (hinv.freePages_eq_zero_iff.mp hnone) (Finset.ne_empty_of_mem hmem)
  · intro hfree
    rcases physicalAllocPage_spec hinv.low with ⟨hempty, -⟩ | ⟨hnonempty, halloc⟩
    · exact absurd hempty hfree.ne_empty
    · have hpage := (mem_free.mp (state.free.min'_mem hfree)).1
      rw [halloc, Nat.mul_comm 4096]
      exact ⟨rfl, toNat_pageAddress hpage, free_take _ _⟩
  · intro address
    by_cases hfrees : state.Frees address
    · refine .inr ⟨by have := hfrees.1; omega, hfrees.2.2.2, ?_⟩
      rw [physicalFreePage_of_frees hfrees, free_give hfrees.2.2.1]
    · exact .inl (physicalFreePage_of_not_frees hfrees)
  · rintro newer address older rfl hnonzero
    by_contra hkept
    cases h with
    | @step _ before _ _ hprefix hlast =>
      generalize hevent : Event.alloc address = event at hlast
      cases hlast with
      | free freed => cases hevent
      | alloc =>
        injection hevent with haddress
        exact (invariant_of_run hprefix).alloc_ne_owned hnonzero
          (owned_append_alloc hnonzero hkept) haddress.symm
  · intro hsome
    rcases hinv.alloc_cases with ⟨-, halloc⟩ | ⟨page, hmem, -, hlow, -, halloc⟩
    · rw [halloc] at hsome
      exact absurd rfl hsome
    · rw [halloc]
      exact physicalFreePage_take hmem hlow

/-- An image that fills all the room the linker script leaves it. -/
def largestImage : Image := ⟨0x98000, by decide, by decide⟩

/-- A page that is handed out, freed and handed out again. -/
theorem bitmap_refines_free_set_alloc_free : ∃ state,
    Run (Initial largestImage) Step [.alloc 0x200000, .free 0x200000, .alloc 0x200000] state ∧
      state.freePages.toNat = 15871 ∧ 512 ∉ state.free ∧ state.physicalAllocPage.1 = 0x201000 := by
  obtain ⟨first, hstart, hpages⟩ : ∃ first, Run (Initial largestImage) Step [] first ∧
      first.free = Finset.Ico 512 16384 :=
    ⟨_, .start ⟨⟨fun _ ↦ 0, 0⟩, rfl⟩, (physicalInit_spec largestImage _).1⟩
  obtain ⟨-, -, -, -, -, hlowest, -, -, hback⟩ := bitmap_refines_free_set hstart
  have hsome : first.free.Nonempty := by
    rw [hpages]
    exact ⟨512, by decide⟩
  have hlow {pages : Finset ℕ} (bound : ℕ) (hbound : bound < 16384) (h : pages = Finset.Ico bound 16384)
      (hpages : pages.Nonempty) : pages.min' hpages = bound := by
    subst h
    apply le_antisymm
    · exact Finset.min'_le _ _ (Finset.mem_Ico.mpr ⟨le_rfl, hbound⟩)
    · exact Finset.le_min' _ _ _ fun page hpage ↦ (Finset.mem_Ico.mp hpage).1
  obtain ⟨haddress, -, herased⟩ := hlowest hsome
  rw [hlow 512 (by decide) hpages hsome] at haddress herased
  have hfirst : first.physicalAllocPage.1 = 0x200000 := haddress
  have hagain : physicalFreePage 0x200000 first.physicalAllocPage.2 = first := by
    rw [← hfirst]
    exact hback (by rw [hfirst]; decide)
  have hrun : Run (Initial largestImage) Step [.alloc 0x200000, .free 0x200000, .alloc 0x200000]
      first.physicalAllocPage.2 := by
    have halloc := hstart.step (.alloc first)
    have hfree := halloc.step (.free _ 0x200000)
    rw [hagain] at hfree
    have hlast := hfree.step (.alloc first)
    rw [hfirst] at hlast
    exact hlast
  have hleft : first.physicalAllocPage.2.free = Finset.Ico 513 16384 := by
    rw [herased, hpages]
    ext page
    rw [Finset.mem_erase, Finset.mem_Ico, Finset.mem_Ico]
    omega
  obtain ⟨-, hcount, -, -, -, hnext, -⟩ := bitmap_refines_free_set hrun
  have hnonempty : first.physicalAllocPage.2.free.Nonempty := by
    rw [hleft]
    exact ⟨513, by decide⟩
  obtain ⟨hsecond, -⟩ := hnext hnonempty
  rw [hlow 513 (by decide) hleft hnonempty] at hsecond
  refine ⟨_, hrun, ?_, ?_, hsecond⟩
  · rw [hcount, hleft, Nat.card_Ico]
  · rw [hleft, Finset.mem_Ico]
    omega

/-! ## Reserved ranges -/

/-- The byte ranges `physical_init` reserves. -/
def reservedRanges (image : Image) : List (ℕ × ℕ) :=
  [(0, 0x1000), (0, 0x100000), (0x9000, image.kernelEnd.toNat), (0x100000, 0x200000),
    (0x98000, 0xA0000)]

/-- The page at `address` shares a byte with a reserved range. -/
def Reserved (image : Image) (address : Word) : Prop :=
  ∃ range ∈ reservedRanges image, ∃ byte, range.1 ≤ byte ∧ byte < range.2 ∧
    address.toNat ≤ byte ∧ byte < address.toNat + 4096

/-- The address of a page of the kmalloc heap. -/
def HeapPage (address : Word) : Prop :=
  address.toNat % 4096 = 0 ∧ 0x100000 ≤ address.toNat ∧ address.toNat < 0x200000

def FreesNoHeapPage (history : List Event) : Prop :=
  ∀ address, .free address ∈ history → ¬ HeapPage address

/-- Every free that changed the state was of an owned address, and no allocation returned a
reserved page. -/
def RespectsReservations (image : Image) (history : List Event) : Prop :=
  (∀ newer address older state, history = newer ++ .free address :: older →
    Run (Initial image) Step older state → physicalFreePage address state ≠ state →
      owned address older = true) ∧
  ∀ result, .alloc result ∈ history → result ≠ 0 → ¬ Reserved image result

theorem not_reserved_of_le {image : Image} {address : Word} (h : 0x200000 ≤ address.toNat) :
    ¬ Reserved image address := by
  rintro ⟨range, hrange, byte, -, hbyte, hlow, -⟩
  have hend := image.le_stack
  simp only [reservedRanges, List.mem_cons, List.not_mem_nil, or_false] at hrange
  rcases hrange with rfl | rfl | rfl | rfl | rfl
  all_goals simp only at hbyte; omega

/-- While no heap page is freed, the used pages from 2 MiB on are the owned ones. -/
structure HeapKept (history : List Event) (state : Physical) : Prop where
  high : ∀ page ∈ state.free, 512 ≤ page
  owned_high : ∀ address, owned address history = true → 0x200000 ≤ address.toNat
  owned_of_frees : ∀ address, state.Frees address → HeapPage address ∨ owned address history = true

theorem frees_give_iff {state : Physical} {page : ℕ} (hpage : page < 16384) {address : Word} :
    (state.give page).Frees address ↔ state.Frees address ∧ address.toNat / 4096 ≠ page := by
  unfold Frees
  rw [free_give hpage, Finset.mem_insert, not_or]
  constructor
  · rintro ⟨haligned, hlow, hhigh, hne, hused⟩
    exact ⟨⟨haligned, hlow, hhigh, hused⟩, hne⟩
  · rintro ⟨⟨haligned, hlow, hhigh, hused⟩, hne⟩
    exact ⟨haligned, hlow, hhigh, hne, hused⟩

theorem frees_take_iff {state : Physical} {page : ℕ} (hlow : 256 ≤ page) (hhigh : page < 16384)
    {address : Word} : (state.take page).Frees address ↔
      state.Frees address ∨ address = .ofNat 32 (page * 4096) := by
  unfold Frees
  rw [free_take, Finset.mem_erase]
  constructor
  · rintro ⟨haligned, hpageLow, hpageHigh, hused⟩
    by_cases hpage : address.toNat / 4096 = page
    · exact .inr (by bv_omega)
    · exact .inl ⟨haligned, hpageLow, hpageHigh, fun hmem ↦ hused ⟨hpage, hmem⟩⟩
  · rintro (⟨haligned, hpageLow, hpageHigh, hused⟩ | rfl)
    · exact ⟨haligned, hpageLow, hpageHigh, fun hmem ↦ hused hmem.2⟩
    · rw [toNat_pageAddress hhigh, Nat.mul_div_cancel _ (by decide)]
      exact ⟨Nat.mul_mod_left page 4096, hlow, hhigh, fun hmem ↦ hmem.1 rfl⟩

theorem HeapKept.initial {image : Image} {state : Physical} (h : Initial image state) :
    HeapKept [] state := by
  obtain ⟨before, rfl⟩ := h
  obtain ⟨hfree, -⟩ := physicalInit_spec image before
  refine ⟨?_, by simp [owned], ?_⟩
  · intro page hpage
    rw [hfree, Finset.mem_Ico] at hpage
    exact hpage.1
  · rintro address ⟨haligned, hlow, hhigh, hused⟩
    rw [hfree, Finset.mem_Ico] at hused
    exact .inl ⟨haligned, by omega, by omega⟩

theorem HeapKept.alloc {history : List Event} {state : Physical} (hinv : Invariant history state)
    (h : HeapKept history state) :
    HeapKept (.alloc state.physicalAllocPage.1 :: history) state.physicalAllocPage.2 := by
  rcases hinv.alloc_cases with ⟨-, halloc⟩ | ⟨page, hmem, -, hlow, hhigh, halloc⟩
  · rw [halloc]
    exact ⟨h.high, by simpa [owned] using h.owned_high, by simpa [owned] using h.owned_of_frees⟩
  · rw [halloc]
    have hpage := h.high page hmem
    refine ⟨?_, ?_, ?_⟩
    · intro other hother
      rw [free_take, Finset.mem_erase] at hother
      exact h.high other hother.2
    · intro address howned
      rw [owned, Bool.or_eq_true, decide_eq_true_eq] at howned
      rcases howned with ⟨-, rfl⟩ | howned
      · rw [toNat_pageAddress hhigh]
        omega
      · exact h.owned_high address howned
    · intro address hfrees
      rw [owned, Bool.or_eq_true, decide_eq_true_eq]
      rcases (frees_take_iff hlow hhigh).mp hfrees with hfrees | rfl
      · exact (h.owned_of_frees address hfrees).imp_right .inr
      · exact .inr (.inl ⟨pageAddress_ne_zero hlow hhigh, rfl⟩)

theorem HeapKept.free {history : List Event} {state : Physical} (h : HeapKept history state)
    {address : Word} (hheap : ¬ HeapPage address) :
    HeapKept (.free address :: history) (physicalFreePage address state) := by
  have hhigh (other : Word) (howned : owned other (.free address :: history) = true) :
      0x200000 ≤ other.toNat := by
    rw [owned, Bool.and_eq_true] at howned
    exact h.owned_high other howned.2
  by_cases hfrees : state.Frees address
  · have haddress := h.owned_high address ((h.owned_of_frees address hfrees).resolve_left hheap)
    rw [physicalFreePage_of_frees hfrees]
    refine ⟨?_, hhigh, ?_⟩
    · intro page hpage
      rw [free_give hfrees.2.2.1, Finset.mem_insert] at hpage
      rcases hpage with rfl | hpage
      · omega
      · exact h.high page hpage
    · intro other hother
      obtain ⟨hbefore, hpage⟩ := (frees_give_iff hfrees.2.2.1).mp hother
      have hne : address ≠ other := fun heq ↦ hpage (by rw [heq])
      simpa [owned, hne] using h.owned_of_frees other hbefore
  · rw [physicalFreePage_of_not_frees hfrees]
    refine ⟨h.high, hhigh, ?_⟩
    intro other hother
    have hne : address ≠ other := fun heq ↦ hfrees (heq ▸ hother)
    simpa [owned, hne] using h.owned_of_frees other hother

theorem heapKept_of_run {image : Image} {history : List Event} {state : Physical}
    (h : Run (Initial image) Step history state) (hclean : FreesNoHeapPage history) :
    HeapKept history state := by
  revert hclean
  apply h.induct fun history state ↦ FreesNoHeapPage history → HeapKept history state
  · exact fun _ hinitial _ ↦ .initial hinitial
  · intro history before event after hprefix hbefore hstep hclean
    have holder := hbefore fun address hmem ↦ hclean address (List.mem_cons_of_mem _ hmem)
    cases hstep with
    | alloc => exact holder.alloc (invariant_of_run hprefix)
    | free address => exact holder.free (hclean address List.mem_cons_self)

/-- The oldest free of a heap page, with nothing of the kind before it. -/
theorem exists_oldest_heap_free {history : List Event} (h : ¬ FreesNoHeapPage history) :
    ∃ newer address older, history = newer ++ .free address :: older ∧ HeapPage address ∧
      FreesNoHeapPage older := by
  unfold FreesNoHeapPage at h
  push Not at h
  obtain ⟨address, hmem, hheap⟩ := h
  have hsome : ∃ event ∈ history, ∃ freed, event = Event.free freed ∧ HeapPage freed :=
    ⟨_, hmem, address, rfl, hheap⟩
  obtain ⟨newer, _, older, hsplit, ⟨freed, rfl, hfreed⟩, hfirst⟩ := exists_oldest hsome
  exact ⟨newer, freed, older, hsplit, hfreed, fun other hother hpage ↦
    hfirst _ hother ⟨other, rfl, hpage⟩⟩

theorem physicalFreePage_ne {state : Physical} {address : Word} (h : state.Frees address) :
    physicalFreePage address state ≠ state := by
  intro heq
  rw [physicalFreePage_of_frees h] at heq
  have hcount : state.freePages + 1 = state.freePages := congrArg freePages heq
  bv_omega

theorem HeapKept.frees_heapPage {history : List Event} {state : Physical} (h : HeapKept history state)
    (address : Word) (hheap : HeapPage address) : state.Frees address := by
  obtain ⟨haligned, hlow, hhigh⟩ := hheap
  refine ⟨haligned, by omega, by omega, fun hmem ↦ ?_⟩
  have := h.high _ hmem
  omega

/-- A run respects the reservations exactly when none of its frees names a heap page. -/
theorem respectsReservations_iff {image : Image} {history : List Event} {state : Physical}
    (h : Run (Initial image) Step history state) :
    RespectsReservations image history ↔ FreesNoHeapPage history := by
  constructor
  · intro hrespects
    by_contra hheapFree
    obtain ⟨newer, address, older, rfl, hheap, hclean⟩ := exists_oldest_heap_free hheapFree
    have holder : ∃ middle, Run (Initial image) Step older middle := by
      have hsplit : newer ++ .free address :: older = (newer ++ [.free address]) ++ older := by simp
      rw [hsplit] at h
      exact h.suffix
    obtain ⟨middle, hmiddle⟩ := holder
    have hkept := heapKept_of_run hmiddle hclean
    have howned := hrespects.1 newer address older middle rfl hmiddle
      (physicalFreePage_ne (hkept.frees_heapPage address hheap))
    have hhigh := hkept.owned_high address howned
    exact absurd hheap.2.2 (by omega)
  · intro hclean
    constructor
    · rintro newer address older middle rfl hmiddle hchanged
      have hkept := heapKept_of_run hmiddle fun freed hmem ↦ hclean freed (by simp [hmem])
      have hfrees : middle.Frees address := by
        by_contra hnot
        exact hchanged (physicalFreePage_of_not_frees hnot)
      exact (hkept.owned_of_frees address hfrees).resolve_left (hclean address (by simp))
    · intro result hmem hnonzero
      obtain ⟨newer, older, rfl⟩ := List.append_of_mem hmem
      obtain ⟨middle, hmiddle⟩ := h.suffix
      have hkept := heapKept_of_run hmiddle fun freed hfreed ↦
        hclean freed (List.mem_append_right _ hfreed)
      exact not_reserved_of_le (hkept.owned_high result (by simpa [owned] using .inl hnonzero))

theorem Invariant.alloc_eq_of_least {history : List Event} {state : Physical}
    (h : Invariant history state) (page : ℕ) (hmem : page ∈ state.free)
    (hleast : ∀ other ∈ state.free, page ≤ other) :
    state.physicalAllocPage = (.ofNat 32 (page * 4096), state.take page) := by
  rcases h.alloc_cases with ⟨hempty, -⟩ | ⟨found, hfound, hmin, -, -, halloc⟩
  · exact absurd hempty (Finset.ne_empty_of_mem hmem)
  · rw [halloc, le_antisymm (hmin page hmem) (hleast found hfound)]

/-- The first page of a boot is allocated and freed again. -/
theorem respectsReservations_iff_first_page :
    RespectsReservations largestImage [.free 0x200000#32, .alloc 0x200000#32] := by
  have hboot : Run (Initial largestImage) Step [] (physicalInit largestImage ⟨fun _ ↦ 0, 0⟩) :=
    .start ⟨_, rfl⟩
  have hfree := (physicalInit_spec largestImage ⟨fun _ ↦ 0, 0⟩).1
  have halloc := (invariant_of_run hboot).alloc_eq_of_least 512 (by rw [hfree, Finset.mem_Ico]; decide)
    (by intro other hother; rw [hfree, Finset.mem_Ico] at hother; exact hother.1)
  have hfirst := hboot.step (.alloc _)
  rw [halloc] at hfirst
  refine (respectsReservations_iff (hfirst.step (.free _ 0x200000#32))).mpr ?_
  intro address hmem hheap
  have haddress : address = 0x200000#32 := by simpa using hmem
  exact absurd hheap.2.2 (by rw [haddress]; decide)

/-- Freeing the first heap page right after `physical_init` changes the state although nobody owns
it, and the next allocation returns that reserved page. -/
theorem heap_page_freed_and_reallocated :
    (∃ boot, Run (Initial largestImage) Step [] boot ∧
      physicalFreePage 0x100000#32 boot ≠ boot ∧ owned 0x100000#32 [] = false) ∧
    (∃ state, Run (Initial largestImage) Step [.alloc 0x100000#32, .free 0x100000#32] state) ∧
    Reserved largestImage 0x100000#32 := by
  have hinitial : Initial largestImage (physicalInit largestImage ⟨fun _ ↦ 0, 0⟩) := ⟨_, rfl⟩
  have hboot : Run (Initial largestImage) Step [] _ := .start hinitial
  have hfrees := (HeapKept.initial hinitial).frees_heapPage 0x100000#32
    ⟨by decide, by decide, by decide⟩
  have hfree := (physicalInit_spec largestImage ⟨fun _ ↦ 0, 0⟩).1
  have hfreed := hboot.step (.free _ 0x100000#32)
  have hset : (physicalFreePage 0x100000#32 (physicalInit largestImage ⟨fun _ ↦ 0, 0⟩)).free =
      insert 256 (Finset.Ico 512 16384) := by
    rw [physicalFreePage_of_frees hfrees, free_give hfrees.2.2.1, hfree]
    rfl
  have hleast (other : ℕ) (hother : other ∈ insert 256 (Finset.Ico 512 16384)) : 256 ≤ other := by
    rw [Finset.mem_insert, Finset.mem_Ico] at hother
    omega
  rw [← hset] at hleast
  have halloc := (invariant_of_run hfreed).alloc_eq_of_least 256
    (by rw [hset]; exact Finset.mem_insert_self _ _) hleast
  have hagain := hfreed.step (.alloc _)
  rw [halloc] at hagain
  refine ⟨⟨_, hboot, physicalFreePage_ne hfrees, rfl⟩, ⟨_, hagain⟩, ?_⟩
  exact ⟨(0x100000, 0x200000), by simp [reservedRanges], 0x100000, by decide⟩

end NeilOS.Physical
