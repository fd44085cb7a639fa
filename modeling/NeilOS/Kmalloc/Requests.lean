import NeilOS.Kmalloc.Client

/-!
# What a request gets

`kmalloc` rounds a request up to a multiple of 8 in 32-bit arithmetic. For the seven largest sizes
the sum wraps, the rounded request is 0 and the first free block satisfies it; every other request
that is served gets at least the bytes it asked for.
-/

namespace NeilOS.Kmalloc

open Foundation Program MemoryOp

/-- The client may use `size` bytes from `ptr` on. -/
structure Grants (client : Client) (ptr size : Word) : Prop where
  recorded : size.toNat ≤ (client.memory.load32 (ptr - headerSize)).toNat
  inside : heap.toNat ≤ ptr.toNat ∧ ptr.toNat + size.toNat ≤ heap.toNat + heapSize.toNat
  headers : ∃ blocks, blockList client.memory walkBound client.head = some blocks ∧
    ∀ block ∈ blocks, block.address.toNat + headerSize.toNat ≤ ptr.toNat ∨
      ptr.toNat + size.toNat ≤ block.address.toNat
  others : ∀ other ∈ client.live, other ≠ ptr → ∀ target : Word, ptr.toNat ≤ target.toNat →
    target.toNat < ptr.toNat + size.toNat → ¬ Payload client.memory other target

/-- Rounding up does not lose bytes unless it wraps. -/
theorem le_align8 {size : Word} (h : size.toNat ≤ 0xFFFFFFF8) : size.toNat ≤ (align8 size).toNat := by
  have hround : (align8 size).toNat = (size + 7).toNat / 8 * 8 := Word.toNat_and_high (size + 7) 3
  have hsum : (size + 7).toNat = size.toNat + 7 := by bv_omega
  omega

/-- A payload that is recorded as large enough is the client's own. -/
theorem Invariant.grants {client : Client} {cells : List Cell} (h : Invariant client cells)
    {ptr size : Word} (hlive : ptr ∈ client.live)
    (hrecorded : size.toNat ≤ (client.memory.load32 (ptr - headerSize)).toNat) :
    Grants client ptr size := by
  obtain ⟨-, hlow, hhigh⟩ := h.live_aligned hlive
  obtain ⟨position, cell, hused, rfl, -⟩ := h.cell_of_live hlive
  have hplaced := (Cells.mem_inUse.mp hused).1
  obtain ⟨hbounds, hptr, hload⟩ := h.placed_spec hplaced
  have hsize : size.toNat ≤ cell.size := by
    rwa [hload] at hrecorded
  refine ⟨hrecorded, ⟨hlow, by omega⟩, ⟨_, h.blockList_eq, fun block hblock ↦ ?_⟩, ?_⟩
  · obtain ⟨place, other, hother, haddress, -, -⟩ := exists_placed_of_mem_layout hblock
    have hotherBounds := (h.placed_spec hother).1.2
    have hheader : headerSize.toNat = 16 := rfl
    rw [haddress, hptr, hheader, Word.toNat_ofNat_of_lt (by omega)]
    rcases Cells.placed_disjoint hother hplaced with ⟨rfl, -⟩ | hbefore | hafter
    · exact .inl (le_refl _)
    · exact .inl (by omega)
    · exact .inr (by omega)
  · intro other hother hne target htargetLow htargetHigh
    refine h.payload_disjoint hlive hother hne.symm ⟨htargetLow, ?_⟩
    omega

/-- A request that is served gets its bytes exactly when rounding it up does not wrap. -/
theorem kmalloc_grants_iff {client : Client} (h : Reachable Initial Step client) {size result : Word}
    {after : Memory} (hexec : exec handle (kmalloc client.head size) client.memory = some (result, after))
    (hsome : result ≠ 0) :
    Grants (client.allocated result after) result size ↔ size.toNat ≤ 0xFFFFFFF8 := by
  obtain ⟨cells, hinv⟩ := exists_invariant h
  rcases hinv.kmalloc_cases hexec with ⟨-, hnull, -⟩ | ⟨position, next, hfit, rfl, -, hnext⟩
  · exact absurd hnull hsome
  have hlive : BitVec.ofNat 32 (position + 16) ∈
      (client.allocated (.ofNat 32 (position + 16)) after).live := by
    rw [Client.allocated, if_neg hsome]
    exact List.mem_cons_self
  constructor
  · intro hgrants
    obtain ⟨-, hlow, hhigh⟩ := hnext.live_aligned hlive
    have hrecorded := hgrants.recorded
    have hheap : heap.toNat + heapSize.toNat = 0x200000 := rfl
    omega
  · intro hsize
    refine hnext.grants hlive ((le_align8 hsize).trans ?_)
    obtain ⟨cell, hplaced, -, hfits, hused⟩ :=
      Cells.mem_inUse_firstFit (by decide) (allocate_eq_some hfit)
    have hentry := (Cells.mem_inUse.mp ((hused _).mpr (.inl rfl))).1
    rw [(hnext.placed_spec hentry).2.2]
    exact Cells.le_granted hfits

/-- A request of 24 bytes of a fresh heap. -/
theorem kmalloc_grants_iff_first_request : ∃ client result after, Initial client ∧
    exec handle (kmalloc client.head 24#32) client.memory = some (result, after) ∧
    Grants (client.allocated result after) result 24#32 := by
  obtain ⟨client, after, hinitial, -, hexec, -⟩ := exists_first_request allocate_fresh
  exact ⟨client, _, after, hinitial, hexec,
    (kmalloc_grants_iff (.initial hinitial) hexec (by decide)).mpr (by decide)⟩

/-- A request of 4 GiB less one byte is rounded to 0 and served with an empty payload. -/
theorem kmalloc_grants_empty_payload : ∃ client after, Initial client ∧
    exec handle (kmalloc client.head 0xFFFFFFFF#32) client.memory = some (0x100010#32, after) ∧
    after.load32 (0x100010#32 - headerSize) = 0 := by
  have hfit : allocate 0xFFFFFFFF [⟨0x100000 - 16, true⟩] =
      some (0x100000, [⟨0, false⟩, ⟨0x100000 - 32, true⟩]) := by decide
  obtain ⟨client, after, hinitial, -, hexec, hrep⟩ := exists_first_request hfit
  exact ⟨client, after, hinitial, hexec, hrep.recorded_size List.mem_cons_self⟩

end NeilOS.Kmalloc
