import NeilOS.Kmalloc.Release

/-!
# Which requests are served

A gap of the heap is a maximal stretch outside the live blocks, their headers included. Since `kfree`
leaves no adjacent free blocks, the gaps are the free blocks, and `kmalloc` is first fit over gaps: it
refuses a request only if no gap can hold it, and otherwise takes the lowest one that can.
-/

namespace NeilOS.Kmalloc

open Foundation MemoryOp Program

/-- The addresses that the live blocks take up, headers included. -/
def Client.Covered (client : Client) (target : ℕ) : Prop :=
  ∃ ptr ∈ client.live, ptr.toNat - headerSize.toNat ≤ target ∧
    target < ptr.toNat + (client.memory.load32 (ptr - headerSize)).toNat

/-- A maximal stretch of the heap outside the live blocks. -/
def Client.Gap (client : Client) (low high : ℕ) : Prop :=
  Foundation.Gap client.Covered heap.toNat (heap.toNat + heapSize.toNat) low high

/-- The bytes a request takes from a gap. -/
def needed (size : Word) : ℕ := headerSize.toNat + (align8 size).toNat

/-- One free block of `before` has become `granted` in `after`, followed by at most one free block.
All other blocks are as they were. -/
def Serves (before after : List Block) (granted : Block) : Prop :=
  ∃ left taken remainder right, before = left ++ taken :: right ∧
    after = left ++ granted :: (remainder ++ right) ∧ taken.free = true ∧
    granted.free = false ∧ granted.address = taken.address ∧
    (∀ block ∈ remainder, block.free = true) ∧ remainder.length ≤ 1

variable {client : Client} {cells : List Cell}

theorem Invariant.covered_eq (h : Invariant client cells) :
    client.Covered = Cells.Covered 16 0x100000 cells := by
  have hheader : headerSize.toNat = 16 := rfl
  -- A live pointer's block starts at its cell and ends behind the recorded payload.
  have hblock {position : ℕ} {cell : Cell}
      (hused : (position, cell) ∈ Cells.inUse 16 0x100000 cells) :
      (BitVec.ofNat 32 (position + 16)).toNat = position + 16 ∧
        (client.memory.load32 (.ofNat 32 (position + 16) - headerSize)).toNat = cell.size :=
    (h.placed_spec (Cells.mem_inUse.mp hused).1).2
  funext target
  apply propext
  constructor
  · rintro ⟨ptr, hlive, hlow, hhigh⟩
    obtain ⟨position, cell, hused, rfl, -⟩ := h.cell_of_live hlive
    rw [(hblock hused).1, hheader] at hlow
    rw [(hblock hused).1, (hblock hused).2] at hhigh
    exact ⟨position, cell, hused, hlow, hhigh⟩
  · rintro ⟨position, cell, hused, hlow, hhigh⟩
    refine ⟨_, (h.live_iff _).mpr ⟨_, hused, rfl⟩, ?_, ?_⟩
    · rw [(hblock hused).1, hheader]
      exact hlow
    · rw [(hblock hused).1, (hblock hused).2]
      exact hhigh

theorem Invariant.gap_iff (h : Invariant client cells) {low high : ℕ} :
    client.Gap low high ↔ Foundation.Gap (Cells.Covered 16 0x100000 cells) 0x100000
      (0x100000 + Cells.extent 16 cells) low high := by
  have hstop : heap.toNat + heapSize.toNat = 0x100000 + Cells.extent 16 cells := by
    rw [h.extent]
    rfl
  rw [Client.Gap, h.covered_eq, hstop]
  rfl

/-! ## The list around the block that serves -/

/-- The blocks in front of a cell do not depend on what the cell and those behind it are. -/
theorem exists_layout_append (base : ℕ) (left : List Cell) :
    ∃ before, ∀ cell right, layout base (left ++ cell :: right) =
      before ++ layout (base + Cells.extent 16 left) (cell :: right) := by
  induction left generalizing base with
  | nil => exact ⟨[], fun cell right ↦ rfl⟩
  | cons first rest ih =>
    obtain ⟨before, hbefore⟩ := ih (Cells.after 16 base first)
    refine ⟨⟨.ofNat 32 base, .ofNat 32 first.size, first.free,
      .ofNat 32 (Cells.after 16 base first)⟩ :: before, fun cell right ↦ ?_⟩
    have hbase : base + Cells.extent 16 (first :: rest) =
        Cells.after 16 base first + Cells.extent 16 rest := by
      simp only [Cells.extent, Cells.after]
      omega
    rw [List.cons_append, layout, hbefore, hbase, link, if_neg (by simp)]
    rfl

/-- First fit on the cells serves in the list. -/
theorem serves_of_firstFit {base position request : ℕ} {next : List Cell}
    (hfit : Cells.firstFit 16 24 request base cells = some (position, next)) :
    ∃ granted, Serves (layout base cells) (layout base next) granted ∧
      granted.address = .ofNat 32 position := by
  obtain ⟨left, cell, right, rfl, rfl, -, hfree, hfits, rfl⟩ := Cells.firstFit_eq_some hfit
  obtain ⟨before, hbefore⟩ := exists_layout_append base left
  rw [hbefore, Cells.carve, List.append_assoc]
  split
  · rename_i hsplit
    have hend : Cells.after 16 (Cells.after 16 (base + Cells.extent 16 left) ⟨request, false⟩)
        ⟨cell.size - request - 16, true⟩ = Cells.after 16 (base + Cells.extent 16 left) cell := by
      simp only [Cells.after]
      omega
    rw [List.cons_append, hbefore, layout, List.cons_append, layout, layout, hend]
    exact ⟨_, ⟨before, _, [⟨_, _, true, _⟩], _, rfl, rfl, hfree, rfl, rfl, by simp, le_rfl⟩, rfl⟩
  · rw [List.cons_append, hbefore]
    exact ⟨_, ⟨before, _, [], _, rfl, rfl, hfree, rfl, rfl, by simp, by simp⟩, rfl⟩

/-! ## Complete first fit -/

/-- The payload recorded for a served request is the request, rounded up, with at most 16 bytes
more. -/
theorem Invariant.recorded_of_allocate (h : Invariant client cells) {size : Word} {position : ℕ}
    {next : List Cell} {after : Memory} (hfit : allocate size cells = some (position, next))
    (hrep : Represents after 0x100000 next) :
    (align8 size).toNat ≤
        (after.load32 (.ofNat 32 (position + 16) - headerSize)).toNat ∧
      (after.load32 (.ofNat 32 (position + 16) - headerSize)).toNat ≤
        (align8 size).toNat + 16 := by
  have hfirst := allocate_eq_some hfit
  obtain ⟨cell, hplaced, -, hfits, hused⟩ := Cells.mem_inUse_firstFit (by decide) hfirst
  have hserved := (Cells.mem_inUse.mp ((hused _).mpr (.inl rfl))).1
  have hbounds := (Cells.placed_bounds hserved).2
  rw [Cells.extent_firstFit (by decide) hfirst, h.extent] at hbounds
  rw [hrep.recorded_size hserved, Word.toNat_ofNat_of_lt (by omega)]
  refine ⟨Cells.le_granted hfits, ?_⟩
  -- Sizes are multiples of 8, so a rest below the split threshold of 24 is at most 16.
  obtain ⟨left, right, hcells, -⟩ := Cells.exists_split_of_mem_placed hplaced
  have hcell : 8 ∣ cell.size := h.granular cell (by simp [hcells])
  have hrequest := dvd_align8 size
  simp only [Cells.granted]
  split <;> omega

/-- `kmalloc` refuses a request exactly if it is empty or no gap can hold it. Otherwise it takes the
lowest gap that can, and leaves all other blocks as they are. -/
theorem kmalloc_complete_first_fit (h : Reachable Initial Step client) (size : Word) :
    ∃ result after, exec handle (kmalloc client.head size) client.memory = some (result, after) ∧
      (result = 0 ↔ size = 0 ∨ ∀ low high, client.Gap low high → high - low < needed size) ∧
      (result = 0 → after = client.memory) ∧
      (result ≠ 0 → ∃ low high, client.Gap low high ∧ needed size ≤ high - low ∧
        (∀ lower upper, client.Gap lower upper → needed size ≤ upper - lower → low ≤ lower) ∧
        result.toNat = low + headerSize.toNat ∧
        (align8 size).toNat ≤ (after.load32 (result - headerSize)).toNat ∧
        (after.load32 (result - headerSize)).toNat ≤ (align8 size).toNat + 16 ∧
        ∃ before blocks granted, blockList client.memory walkBound client.head = some before ∧
          blockList after walkBound client.head = some blocks ∧ Serves before blocks granted ∧
          granted.address + headerSize = result) := by
  obtain ⟨cells, hinv⟩ := exists_invariant h
  obtain ⟨result, after, hexec, -⟩ := (hinv.kmalloc_spec size).exec
  have hnone := @Cells.Separated.firstFit_eq_none_iff 16 24 (by decide) (align8 size).toNat 0x100000
    cells hinv.separated
  simp only [← hinv.gap_iff] at hnone
  refine ⟨result, after, hexec, ?_⟩
  rcases hinv.kmalloc_cases hexec with ⟨hfit, rfl, rfl⟩ | ⟨position, next, hfit, rfl, hsome, hnext⟩
  · refine ⟨iff_of_true rfl ?_, fun _ ↦ rfl, fun hnonzero ↦ absurd rfl hnonzero⟩
    by_cases hempty : size = 0
    · exact .inl hempty
    · rw [allocate, if_neg hempty] at hfit
      exact .inr (hnone.mp hfit)
  · have hfirst := allocate_eq_some hfit
    have hempty : size ≠ 0 := by
      rintro rfl
      simp [allocate] at hfit
    refine ⟨iff_of_false hsome ?_, fun hzero ↦ absurd hzero hsome, fun _ ↦ ?_⟩
    · rintro (hzero | hsmall)
      · exact hempty hzero
      · have hrefused := hnone.mpr hsmall
        rw [hfirst] at hrefused
        cases hrefused
    obtain ⟨cell, hplaced, hfree, hfits, -⟩ := Cells.mem_inUse_firstFit (by decide) hfirst
    have hgap := hinv.gap_iff.mpr (hinv.separated.gap_of_free (by decide) hplaced hfree)
    have hptr := (hinv.placed_spec hplaced).2.1
    rw [Client.allocated, if_neg hsome] at hnext
    have hheader : headerSize.toNat = 16 := rfl
    obtain ⟨granted, hserves, haddress⟩ := serves_of_firstFit hfirst
    obtain ⟨hatLeast, hatMost⟩ := hinv.recorded_of_allocate hfit hnext.represents
    refine ⟨position, _, hgap, by simp only [needed]; omega, ?_, ?_, hatLeast, hatMost, _, _, granted,
      hinv.blockList_eq, hnext.blockList_eq, hserves, ?_⟩
    · intro lower upper hother hlarge
      exact hinv.separated.firstFit_lowest (by decide) hfirst (hinv.gap_iff.mp hother) hlarge
    · rw [hheader]
      exact hptr
    · rw [haddress, headerSize_eq, BitVec.ofNat_add]

/-- Of two blocks of 24 bytes the lower one has been freed again. -/
theorem exists_reachable_two_gaps : ∃ client, Reachable Initial Step client ∧
    Invariant client [⟨24, true⟩, ⟨24, false⟩, ⟨0x100000 - 96, true⟩] := by
  have hsecondFit : allocate 24 [⟨24, false⟩, ⟨0x100000 - 56, true⟩] =
      some (0x100028, [⟨24, false⟩, ⟨24, false⟩, ⟨0x100000 - 96, true⟩]) := by decide
  have hused : (0x100000, ⟨24, false⟩) ∈
      Cells.inUse 16 0x100000 [⟨24, false⟩, ⟨24, false⟩, ⟨0x100000 - 96, true⟩] := by decide
  obtain ⟨head, memory, hinit, -⟩ := (kmallocInit_spec fun _ ↦ 0).exec
  have hfresh := Invariant.initial (.init hinit)
  obtain ⟨middle, hfirst, hmiddle⟩ := hfresh.exists_kmalloc allocate_fresh
  obtain ⟨later, hsecond, hlater⟩ := hmiddle.exists_kmalloc hsecondFit
  obtain ⟨after, hfreed, hafter⟩ := hlater.exists_kfree hused
  have hreachable := ((Reachable.initial (Initial.init hinit)).step (Step.kmalloc hfirst)).step
    (.kmalloc hsecond)
  have hlive := (hlater.live_iff _).mpr ⟨_, hused, rfl⟩
  exact ⟨_, hreachable.step (.kfree (.inr hlive) hfreed), hafter⟩

/-- The lower of two gaps is too small for 32 bytes, and both are too small for a megabyte. -/
theorem kmalloc_complete_first_fit_two_gaps : ∃ client after, Reachable Initial Step client ∧
    client.Gap 0x100000 0x100028 ∧ client.Gap 0x100050 0x200000 ∧
    exec handle (kmalloc client.head 32#32) client.memory = some (0x100060#32, after) ∧
    (∀ lower upper, client.Gap lower upper → needed 32#32 ≤ upper - lower → 0x100050 ≤ lower) ∧
    32 ≤ (after.load32 0x100050#32).toNat ∧
    exec handle (kmalloc client.head 0x100000#32) client.memory = some (0, client.memory) ∧
    ∀ low high, client.Gap low high → high - low < needed 0x100000#32 := by
  obtain ⟨client, hreachable, hinv⟩ := exists_reachable_two_gaps
  have hlower := hinv.gap_iff.mpr (hinv.separated.gap_of_free (by decide)
    (by decide : (0x100000, ⟨24, true⟩) ∈ Cells.placed 16 0x100000 _) rfl)
  have hupper := hinv.gap_iff.mpr (hinv.separated.gap_of_free (by decide)
    (by decide : (0x100050, ⟨0x100000 - 96, true⟩) ∈ Cells.placed 16 0x100000 _) rfl)
  obtain ⟨result, after, hexec, -, -, hserved⟩ := kmalloc_complete_first_fit hreachable 32#32
  obtain ⟨refused, same, hrefusedExec, hrefused, hsame, -⟩ :=
    kmalloc_complete_first_fit hreachable 0x100000#32
  have hfit : allocate 32#32 [⟨24, true⟩, ⟨24, false⟩, ⟨0x100000 - 96, true⟩] =
      some (0x100050, [⟨24, true⟩, ⟨24, false⟩, ⟨32, false⟩, ⟨0x100000 - 144, true⟩]) := by decide
  have hnoFit : allocate 0x100000#32 [⟨24, true⟩, ⟨24, false⟩, ⟨0x100000 - 96, true⟩] = none := by decide
  obtain ⟨granted, hgranted, -⟩ := hinv.exists_kmalloc hfit
  obtain ⟨rfl, rfl⟩ := Prod.mk.inj (Option.some.inj (hexec.symm.trans hgranted))
  obtain ⟨low, high, -, -, hlowest, hlow, hatLeast, -⟩ := hserved (by decide)
  have hposition : low = 0x100050 := by
    have hsum : 0x100060 = low + 16 := hlow
    omega
  obtain rfl : refused = 0 := by
    rcases hinv.kmalloc_cases hrefusedExec with ⟨-, hzero, -⟩ | ⟨position, next, hsome, -⟩
    · exact hzero
    · rw [hnoFit] at hsome
      cases hsome
  obtain rfl := hsame rfl
  refine ⟨client, after, hreachable, hlower, hupper, hexec, ?_, hatLeast, hrefusedExec, ?_⟩
  · rw [← hposition]
    exact hlowest
  · exact (hrefused.mp rfl).resolve_left (by decide)

end NeilOS.Kmalloc
