import NeilOS.Foundation.Gaps
import NeilOS.Kmalloc.Client

/-!
# What `kfree` gives back

After every `kfree` the tiling has no adjacent free cells, so the block list is a function of the
cells in use alone. Freeing what was just allocated therefore restores the list, and a set of live
pointers can be freed in any order.
-/

namespace NeilOS.Kmalloc

open Foundation MemoryOp Program

variable {client : Client} {cells : List Cell}

/-- The block list depends only on which cells are in use. -/
theorem Invariant.cells_unique {other : Client} {next : List Cell} (h : Invariant client cells)
    (hother : Invariant other next)
    (hused : ∀ entry, entry ∈ Cells.inUse 16 0x100000 cells ↔
      entry ∈ Cells.inUse 16 0x100000 next) : cells = next :=
  Cells.Separated.ext (by decide) h.separated hother.separated (h.extent.trans hother.extent.symm)
    hused

/-- `kfree` of a live pointer returns and releases its cell. -/
theorem Invariant.exists_kfree (h : Invariant client cells) {position : ℕ} {cell : Cell}
    (hused : (position, cell) ∈ Cells.inUse 16 0x100000 cells) :
    ∃ after, exec handle (Kmalloc.kfree client.head (.ofNat 32 (position + 16))) client.memory =
        some ((), after) ∧
      Invariant
        { client with
          memory := after
          live := client.live.erase (.ofNat 32 (position + 16)) }
        (Cells.release 16 position 0x100000 cells) := by
  obtain ⟨⟨⟩, after, hexec, -⟩ := (h.kfree_spec hused).exec
  exact ⟨after, hexec, h.kfree_live hused hexec⟩

/-- A request that first fit can serve is served, with the tiling first fit leaves. -/
theorem Invariant.exists_kmalloc (h : Invariant client cells) {size : Word} {position : ℕ}
    {next : List Cell} (hfit : allocate size cells = some (position, next)) :
    ∃ after, exec handle (Kmalloc.kmalloc client.head size) client.memory =
        some (.ofNat 32 (position + 16), after) ∧
      Invariant (client.allocated (.ofNat 32 (position + 16)) after) next := by
  obtain ⟨result, after, hexec, -⟩ := (h.kmalloc_spec size).exec
  rcases h.kmalloc_cases hexec with ⟨hnone, -, -⟩ | ⟨place, cells, hsome, rfl, -, hnext⟩
  · rw [hfit] at hnone
    cases hnone
  · rw [hfit] at hsome
    obtain ⟨rfl, rfl⟩ := Prod.mk.inj (Option.some.inj hsome)
    exact ⟨after, hexec, hnext⟩

/-! ## A request and its release -/

/-- First fit followed by the release of the cell it took. -/
theorem mem_inUse_release_allocate {size : Word} {position : ℕ} {next : List Cell}
    (hfit : allocate size cells = some (position, next)) :
    ∃ cell, (position, cell) ∈ Cells.inUse 16 0x100000 next ∧
      ∀ entry, entry ∈ Cells.inUse 16 0x100000 (Cells.release 16 position 0x100000 next) ↔
        entry ∈ Cells.inUse 16 0x100000 cells := by
  obtain ⟨cell, hplaced, hfree, -, hused⟩ :=
    Cells.mem_inUse_firstFit (by decide) (allocate_eq_some hfit)
  have hserved := (hused _).mpr (.inl rfl)
  refine ⟨_, hserved, fun entry ↦ ?_⟩
  rw [Cells.mem_inUse_release (by decide) (Cells.mem_inUse.mp hserved).1, hused]
  constructor
  · rintro ⟨rfl | hentry, hne⟩
    · exact absurd rfl hne
    · exact hentry
  · intro hentry
    refine ⟨.inr hentry, ?_⟩
    -- The served cell was free before, so no cell in use stood there.
    rintro rfl
    obtain ⟨hother, hinUse⟩ := Cells.mem_inUse.mp hentry
    obtain rfl := Cells.placed_unique (by decide) hplaced hother
    exact Bool.noConfusion (hinUse.symm.trans hfree)

/-- Freeing what `kmalloc` just returned restores the block list. -/
theorem kfree_undoes_kmalloc (h : Reachable Initial Step client) {size result : Word}
    {middle : Memory}
    (hexec : exec handle (kmalloc client.head size) client.memory = some (result, middle))
    (hsome : result ≠ 0) :
    ∃ after blocks, exec handle (kfree client.head result) middle = some ((), after) ∧
      blockList client.memory walkBound client.head = some blocks ∧
      blockList after walkBound client.head = some blocks := by
  obtain ⟨cells, hinv⟩ := exists_invariant h
  rcases hinv.kmalloc_cases hexec with ⟨-, hnull, -⟩ | ⟨position, next, hfit, rfl, -, hnext⟩
  · exact absurd hnull hsome
  rw [Client.allocated, if_neg hsome] at hnext
  obtain ⟨cell, hserved, hused⟩ := mem_inUse_release_allocate hfit
  obtain ⟨after, hfreed, hafter⟩ := hnext.exists_kfree hserved
  rw [hafter.cells_unique hinv hused] at hafter
  exact ⟨after, _, hfreed, hinv.blockList_eq, hafter.blockList_eq⟩

/-- A request of 24 bytes of a fresh heap, which splits the only block, and its release. -/
theorem kfree_undoes_kmalloc_first_request : ∃ client middle after, Initial client ∧
    exec handle (kmalloc client.head 24#32) client.memory = some (0x100010#32, middle) ∧
    exec handle (kfree client.head 0x100010#32) middle = some ((), after) ∧
    blockList after walkBound client.head = blockList client.memory walkBound client.head := by
  obtain ⟨client, middle, hinitial, -, hexec, -⟩ := exists_first_request allocate_fresh
  obtain ⟨after, blocks, hfreed, hbefore, hafter⟩ :=
    kfree_undoes_kmalloc (.initial hinitial) hexec (by decide)
  exact ⟨client, middle, after, hinitial, hexec, hfreed, hafter.trans hbefore.symm⟩

/-! ## Several releases -/

/-- One `kfree` after another. -/
def kfreeAll (head : Word) : List Word → MemoryProgram Unit
  | [] => return ()
  | ptr :: rest => do
      kfree head ptr
      kfreeAll head rest

/-- Freeing different live pointers returns, and the other cells in use stay. -/
theorem Invariant.exists_kfreeAll {ptrs : List Word} (h : Invariant client cells)
    (hnodup : ptrs.Nodup) (hlive : ∀ ptr ∈ ptrs, ptr ∈ client.live) :
    ∃ after next, exec handle (kfreeAll client.head ptrs) client.memory = some ((), after) ∧
      (∃ live, Invariant { client with memory := after, live := live } next) ∧
      ∀ entry, entry ∈ Cells.inUse 16 0x100000 next ↔
        entry ∈ Cells.inUse 16 0x100000 cells ∧ BitVec.ofNat 32 (entry.1 + 16) ∉ ptrs := by
  induction ptrs generalizing client cells with
  | nil => exact ⟨client.memory, cells, rfl, ⟨client.live, h⟩, by simp⟩
  | cons ptr rest ih =>
    obtain ⟨hfresh, hrest⟩ := List.nodup_cons.mp hnodup
    obtain ⟨position, cell, hused, rfl, -⟩ := h.cell_of_live (hlive ptr List.mem_cons_self)
    obtain ⟨middle, hfirst, hmiddle⟩ := h.exists_kfree hused
    have hleft : ∀ other ∈ rest, other ∈ client.live.erase (.ofNat 32 (position + 16)) := by
      intro other hother
      refine (h.live_nodup.mem_erase_iff).mpr ⟨?_, hlive other (List.mem_cons_of_mem _ hother)⟩
      rintro rfl
      exact hfresh hother
    obtain ⟨after, next, hrun, hafter, hiff⟩ := ih hmiddle hrest hleft
    refine ⟨after, next, ?_, hafter, fun entry ↦ ?_⟩
    · rw [kfreeAll, exec_bind, hfirst]
      exact hrun
    · rw [hiff, Cells.mem_inUse_release (by decide) (Cells.mem_inUse.mp hused).1, List.mem_cons,
        not_or, and_assoc, and_congr_right_iff]
      intro hentry
      rw [and_congr_left_iff]
      rintro -
      exact ⟨fun hne heq ↦ hne (h.position_inj hentry hused heq), fun hne heq ↦ hne (by rw [heq])⟩

/-- The order in which live pointers are freed does not show in the block list. Once all of them are
freed, the list is the one `kmalloc_init` builds. -/
theorem kfreeAll_perm (h : Reachable Initial Step client) {first second : List Word}
    (hperm : first.Perm second) (hnodup : first.Nodup) (hlive : ∀ ptr ∈ first, ptr ∈ client.live) :
    ∃ after other blocks,
      exec handle (kfreeAll client.head first) client.memory = some ((), after) ∧
      exec handle (kfreeAll client.head second) client.memory = some ((), other) ∧
      blockList after walkBound client.head = some blocks ∧
      blockList other walkBound client.head = some blocks ∧
      ((∀ ptr ∈ client.live, ptr ∈ first) →
        blocks = [⟨heap, heapSize - headerSize, true, 0⟩] ∧
        ∀ memory head fresh, exec handle kmallocInit memory = some (head, fresh) →
          blockList fresh walkBound head = some blocks) := by
  obtain ⟨cells, hinv⟩ := exists_invariant h
  obtain ⟨after, next, hfirst, ⟨live, hafter⟩, hiff⟩ := hinv.exists_kfreeAll hnodup hlive
  obtain ⟨other, last, hsecond, ⟨otherLive, hother⟩, hotherIff⟩ :=
    hinv.exists_kfreeAll (hperm.nodup_iff.mp hnodup) fun ptr hptr ↦ hlive ptr (hperm.mem_iff.mpr hptr)
  have hsame : last = next := hother.cells_unique hafter fun entry ↦ by
    rw [hiff, hotherIff, hperm.mem_iff]
  subst hsame
  refine ⟨after, other, _, hfirst, hsecond, hafter.blockList_eq, hother.blockList_eq, fun hall ↦ ?_⟩
  have hempty (entry : ℕ × Cell) : entry ∉ Cells.inUse 16 0x100000 last := by
    rw [hiff]
    rintro ⟨hentry, hkept⟩
    exact hkept (hall _ ((hinv.live_iff _).mpr ⟨entry, hentry, rfl⟩))
  obtain ⟨head, fresh, hinit, -⟩ := (kmallocInit_spec client.memory).exec
  have hcells : [⟨0x100000 - 16, true⟩] = last :=
    (Invariant.initial (.init hinit)).cells_unique hafter fun entry ↦
      iff_of_false (by simp [Cells.inUse, Cells.placed]) (hempty entry)
  rw [← hcells]
  exact ⟨by decide, fun _ _ _ hagain ↦ (Invariant.initial (.init hagain)).blockList_eq⟩

/-- A second client asks for 24 bytes behind the first one. -/
theorem exists_reachable_two_blocks :
    ∃ client, Reachable Initial Step client ∧ client.live = [0x100038#32, 0x100010#32] := by
  have hsecondFit : allocate 24 [⟨24, false⟩, ⟨0x100000 - 56, true⟩] =
      some (0x100028, [⟨24, false⟩, ⟨24, false⟩, ⟨0x100000 - 96, true⟩]) := by decide
  obtain ⟨head, memory, hinit, -⟩ := (kmallocInit_spec fun _ ↦ 0).exec
  have hfresh := Invariant.initial (.init hinit)
  obtain ⟨middle, hfirst, hmiddle⟩ := hfresh.exists_kmalloc allocate_fresh
  obtain ⟨after, hsecond, -⟩ := hmiddle.exists_kmalloc hsecondFit
  have hreachable := (Reachable.initial (Initial.init hinit)).step (Step.kmalloc hfirst)
  refine ⟨_, hreachable.step (.kmalloc hsecond), ?_⟩
  rw [Client.allocated, if_neg (by decide), Client.allocated, if_neg (by decide)]

/-- Two blocks freed in the order of the requests and in the opposite one. -/
theorem kfreeAll_perm_two_blocks : ∃ (client : Client) (after other : Memory),
    client.live = [0x100038#32, 0x100010#32] ∧
    exec handle (kfreeAll client.head [0x100010#32, 0x100038#32]) client.memory =
      some ((), after) ∧
    exec handle (kfreeAll client.head [0x100038#32, 0x100010#32]) client.memory =
      some ((), other) ∧
    blockList after walkBound client.head = blockList other walkBound client.head := by
  obtain ⟨client, hreachable, hlive⟩ := exists_reachable_two_blocks
  obtain ⟨after, other, blocks, hfirst, hsecond, hafter, hother, -⟩ :=
    kfreeAll_perm hreachable (List.Perm.swap 0x100038#32 0x100010#32 []) (by decide)
      (by simp [hlive])
  exact ⟨client, after, other, hlive, hfirst, hsecond, hafter.trans hother.symm⟩

end NeilOS.Kmalloc
