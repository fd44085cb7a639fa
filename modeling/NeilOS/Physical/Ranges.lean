import NeilOS.Physical.FreeSet

/-!
# Reserving address ranges

`reserve_range` rounds the two ends to whole pages in 32-bit arithmetic. Its effect is the reservation
of a set of pages, so ranges may overlap and come in any order. The set is the one of the pages that
the range intersects unless the end lies in the last page of the address space, where rounding it up
gives zero and nothing is reserved.
-/

namespace NeilOS.Physical

open Foundation

/-! ## Ranges in any order -/

/-- The order and the number of times do not matter. -/
theorem reserveAll_congr {ranges others : List (Word × Word)}
    (h : ∀ range, range ∈ ranges ↔ range ∈ others) (state : Physical) :
    state.reserveAll ranges = state.reserveAll others := by
  have hsame : ranges.toFinset = others.toFinset := by
    ext range
    rw [List.mem_toFinset, List.mem_toFinset]
    exact h range
  have hranges := reserveAll_reserved ranges state
  rw [hsame] at hranges
  exact hranges.unique (reserveAll_reserved others state)

/-! ## Whole pages -/

/-- The page has a byte in `[start, stop)`. -/
def Intersects (start stop : Word) (page : ℕ) : Prop :=
  ∃ address, start.toNat ≤ address ∧ address < stop.toNat ∧ address / 4096 = page

theorem intersects_iff {start stop : Word} (hrange : start < stop) (page : ℕ) :
    Intersects start stop page ↔ start.toNat / 4096 ≤ page ∧ page * 4096 < stop.toNat := by
  have hlt : start.toNat < stop.toNat := hrange
  constructor
  · rintro ⟨address, hlow, hhigh, rfl⟩
    omega
  · rintro ⟨hlow, hhigh⟩
    -- The first byte that the page and the range share.
    refine ⟨max start.toNat (page * 4096), le_max_left _ _, max_lt hlt hhigh, ?_⟩
    omega

/-- What `reserve_range` is for: the pages of the memory that the range intersects become used, all
other bits stay, and the counter goes down by the number of pages that are newly marked. -/
structure Reserves (start stop : Word) (before after : Physical) : Prop where
  used : ∀ page, after.isUsed page = true ↔
    before.isUsed page = true ∨ page < physicalPageCount ∧ Intersects start stop page
  counter : after.freePages.toNat + (before.free \ after.free).card = before.freePages.toNat

theorem isUsed_reserveRange (start stop : Word) (state : Physical) (page : ℕ) :
    (state.reserveRange start stop).isUsed page = true ↔
      page ∈ rangePages start stop ∨ state.isUsed page = true :=
  (reserveRange_reserved start stop state).bits page

/-- The counter is right in any case. -/
theorem counter_reserveRange {state : Physical} (hcounted : state.Counted) (start stop : Word) :
    (state.reserveRange start stop).freePages.toNat +
      (state.free \ (state.reserveRange start stop).free).card = state.freePages.toNat := by
  have hreserved := reserveRange_reserved start stop state
  have hsubset : (state.reserveRange start stop).free ⊆ state.free := by
    rw [hreserved.free_eq]
    exact Finset.sdiff_subset
  rw [(hreserved.counted (rangePages_subset start stop) hcounted).toNat, hcounted.toNat, Nat.add_comm]
  exact Finset.card_sdiff_add_card_eq_card hsubset

/-- **Reserving a range.** The intersected pages are reserved just when the rounded end does not wrap
or no page from the start's page on is free, so that there is nothing to reserve. Lists of ranges with
the same members give the same state. -/
theorem reserve_range_exact_iff {state : Physical} (hcounted : state.Counted) {start stop : Word}
    (hrange : start < stop) :
    (Reserves start stop state (state.reserveRange start stop) ↔
      stop.toNat ≤ 0xFFFFF000 ∨ ∀ page ∈ state.free, page < start.toNat / 4096) ∧
    ∀ ranges others : List (Word × Word), (∀ range, range ∈ ranges ↔ range ∈ others) →
      state.reserveAll ranges = state.reserveAll others := by
  refine ⟨?_, fun ranges others h ↦ reserveAll_congr h state⟩
  constructor
  · intro hreserves
    by_contra hfails
    push Not at hfails
    obtain ⟨hlarge, page, hfree, hbehind⟩ := hfails
    obtain ⟨hbound, hclear⟩ := mem_free.mp hfree
    have hintersects : Intersects start stop page :=
      (intersects_iff hrange page).mpr ⟨hbehind, by omega⟩
    have hused := (hreserves.used page).mpr (.inr ⟨hbound, hintersects⟩)
    rcases (isUsed_reserveRange start stop state page).mp hused with hpage | hbefore
    · have := (mem_rangePages.mp hpage).2.2.2
      omega
    · rw [hclear] at hbefore
      exact absurd hbefore Bool.false_ne_true
  · intro hcondition
    refine ⟨fun page ↦ ?_, counter_reserveRange hcounted start stop⟩
    rw [isUsed_reserveRange, mem_rangePages, intersects_iff hrange, physicalPageCount_eq]
    constructor
    · rintro (⟨hbound, hlow, hhigh, -⟩ | hbefore)
      · exact .inr ⟨hbound, hlow, hhigh⟩
      · exact .inl hbefore
    · rintro (hbefore | ⟨hbound, hlow, hhigh⟩)
      · exact .inr hbefore
      · rcases hcondition with hstop | hfree
        · exact .inl ⟨hbound, hlow, hhigh, hstop⟩
        · -- No page from the start's page on is free, so this one is used already.
          refine .inr ?_
          by_contra hclear
          have hmem : page ∈ state.free := mem_free.mpr ⟨hbound, Bool.eq_false_iff.mpr hclear⟩
          exact absurd (hfree page hmem) (Nat.not_lt.mpr hlow)

theorem reserve_range_exact_iff_page_zero :
    (unreserved ⟨fun _ ↦ 0, 0⟩).Counted ∧
      Reserves 0 0x1000 (unreserved ⟨fun _ ↦ 0, 0⟩)
        ((unreserved ⟨fun _ ↦ 0, 0⟩).reserveRange 0 0x1000) ∧
      (unreserved ⟨fun _ ↦ 0, 0⟩).reserveAll [(0, 0x1000), (0, 0x100000), (0, 0x1000)] =
        (unreserved ⟨fun _ ↦ 0, 0⟩).reserveAll [(0, 0x100000), (0, 0x1000)] := by
  have hcounted : (unreserved ⟨fun _ ↦ 0, 0⟩).Counted := (unreserved_spec _).2
  obtain ⟨hiff, hlists⟩ := reserve_range_exact_iff hcounted (by decide : (0 : Word) < 0x1000)
  refine ⟨hcounted, hiff.mpr (.inl (by decide)), hlists _ _ fun range ↦ ?_⟩
  simp only [List.mem_cons]
  grind

/-- A range up to the last address reserves nothing. -/
theorem reserve_range_wraps :
    (unreserved ⟨fun _ ↦ 0, 0⟩).Counted ∧
      (unreserved ⟨fun _ ↦ 0, 0⟩).reserveRange 0 0xFFFFFFFF = unreserved ⟨fun _ ↦ 0, 0⟩ ∧
      ¬ Reserves 0 0xFFFFFFFF (unreserved ⟨fun _ ↦ 0, 0⟩)
        ((unreserved ⟨fun _ ↦ 0, 0⟩).reserveRange 0 0xFFFFFFFF) := by
  obtain ⟨hfree, hcounted⟩ := unreserved_spec ⟨fun _ ↦ 0, 0⟩
  have hsame : (unreserved ⟨fun _ ↦ 0, 0⟩).reserveRange 0 0xFFFFFFFF =
      unreserved ⟨fun _ ↦ 0, 0⟩ := by
    rw [reserveRange, reserveLoop, if_neg (by decide)]
  refine ⟨hcounted, hsame, fun hreserves ↦ ?_⟩
  have hintersects : Intersects 0 0xFFFFFFFF 0 := ⟨0, by decide, by decide, rfl⟩
  have hused := (hreserves.used 0).mpr (.inr ⟨by decide, hintersects⟩)
  have hzero : 0 ∈ (unreserved ⟨fun _ ↦ 0, 0⟩).free := by
    rw [hfree]
    exact Finset.mem_range.mpr (by decide)
  rw [hsame, (mem_free.mp hzero).2] at hused
  exact Bool.false_ne_true hused

end NeilOS.Physical
