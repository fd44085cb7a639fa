import NeilOS.Kernel.Areas

/-!
# Which bytes a step of the kernel changes

Each service is bounded in its own module: `kmalloc` and `kfree` store inside free cells, the paging
functions inside the directory and one page table, an interrupt pushes on the current stack and
`task_create` builds on a stack that no task uses. With the memory map this says which areas keep
their bytes.
-/

namespace NeilOS

open Foundation Program

/-! ## Paging calls -/

namespace Paging

open Scheduler (Region)

variable {image : PagingImage} {table : Word} {start machine : Machine}

/-- The four bytes of an entry lie in the page of its table. -/
theorem contains_of_entry (htable : Aligned table) {index : ℕ} (hindex : index < 1024) {target : Word}
    (h : (target - entry table (.ofNat 32 index)).toNat < 4) : (Region.page table).Contains target := by
  have hentry := htable.toNat_entry hindex
  unfold Aligned at htable
  simp only [Region.Contains, Region.page]
  bv_omega

theorem load32_entry_congr (htable : Aligned table) {before after : Memory} {index : ℕ}
    (hindex : index < 1024)
    (h : ∀ target, (Region.page table).Contains target → after target = before target) :
    after.load32 (entry table (.ofNat 32 index)) = before.load32 (entry table (.ofNat 32 index)) :=
  Memory.load32_congr fun target htarget ↦ h target (contains_of_entry htable hindex htarget)

theorem root_congr (htable : Aligned table) {before after : Memory}
    (h : ∀ target, (Region.page table).Contains target → after target = before target) :
    root after table = root before table := by
  funext index
  exact root_of_load (load32_entry_congr htable index.isLt h)

theorem slots_congr (htable : Aligned table) {before after : Memory}
    (h : ∀ target, (Region.page table).Contains target → after target = before target) :
    slots after table = slots before table := by
  funext index
  exact slots_of_load (load32_entry_congr htable index.isLt h)

/-- The operation reaches the page directory or one table, if anything. -/
def Within (image : PagingImage) (table : Word) (_ : Machine) (op : PagingOp) : Prop :=
  ∀ address, op.accessed = some address → ∃ index < 1024,
    address = entry image.pageDirectory (.ofNat 32 index) ∨ address = entry table (.ofNat 32 index)

theorem Touches.within {op : PagingOp} (h : Touches image table start machine op) :
    Within image table machine op :=
  fun address haddress ↦ (h address haddress).2

/-- A program that stays within the directory and one table leaves all other bytes alone. -/
theorem within_frame {α : Type} {program : PagingProgram α} {post : α → Machine → Prop}
    (htable : Aligned table) (h : Meets (handle direct) (Within image table) program machine post) :
    Meets (handle direct) (Within image table) program machine fun value after ↦
      post value after ∧ ∀ target, ¬ (Region.page image.pageDirectory).Contains target →
        ¬ (Region.page table).Contains target → after.memory target = machine.memory target := by
  apply h.preserve (fun _ _ _ _ ↦ rfl)
  · intro first second third hfirst hsecond target hdirectory hpage
    rw [hsecond target hdirectory hpage, hfirst target hdirectory hpage]
  · intro before op reply hwithin hreply target hdirectory hpage
    cases op with
    | store address value =>
      obtain ⟨index, hindex, haddress⟩ := hwithin address rfl
      rw [← Option.some.inj hreply]
      apply Memory.store32_of_outside
      by_contra hinside
      rw [Nat.not_le] at hinside
      rcases haddress with rfl | rfl
      · exact hdirectory (contains_of_entry image.directory_aligned hindex hinside)
      · exact hpage (contains_of_entry htable hindex hinside)
    | load address => rw [← Option.some.inj hreply]
    | invlpg address => rw [← Option.some.inj hreply]
    | loadCr3 address => rw [← Option.some.inj hreply]
    | enablePaging => rw [← Option.some.inj hreply]
    | physicalAllocPage => rw [← Option.some.inj hreply]
    | fvgaWrite format arguments => rw [← Option.some.inj hreply]

/-- `paging_init` writes the two static tables. -/
theorem pagingInit_within (image : PagingImage) (start : Machine) :
    Meets (handle direct) (Within image image.firstPageTable) (pagingInit image) start fun _ _ ↦ True := by
  have hdirectory {index : ℕ} {value : Word} {before : Machine} (hindex : index < 1024) :
      Within image image.firstPageTable before (.store (entry image.pageDirectory (.ofNat 32 index)) value) :=
    fun address haddress ↦ ⟨index, hindex, .inl (Option.some.inj haddress).symm⟩
  have htable {index : ℕ} {value : Word} {before : Machine} (hindex : index < 1024) :
      Within image image.firstPageTable before (.store (entry image.firstPageTable (.ofNat 32 index)) value) :=
    fun address haddress ↦ ⟨index, hindex, .inr (Option.some.inj haddress).symm⟩
  unfold pagingInit
  apply Meets.bind (meets_fill image.directory_aligned (fun _ ↦ 0) start fun _ hindex _ _ ↦ hdirectory hindex)
  rintro - after ⟨cleared, rfl, -⟩
  apply Meets.bind (meets_fill image.table_aligned identityEntry _ fun _ hindex _ _ ↦ htable hindex)
  rintro - after ⟨filled, rfl, -⟩
  simp only [meets_bind, meets_store, meets_pagingLoadCr3, meets_pagingEnable]
  refine ⟨@hdirectory 0 _ _ (by decide), ?_, ?_, trivial⟩
  · intro address haddress
    cases haddress
  · intro address haddress
    cases haddress

/-- The directory entry of the address, after a call of `paging_map` that succeeded. -/
theorem root_of_directoryAfter {taken : Word → Prop} {virtualAddress : Word} {after : Memory}
    (husable : start.physical.physicalAllocPage.1 ≠ 0 →
      Usable taken start.physical.physicalAllocPage.1)
    (hsome : root start.memory image.pageDirectory (directoryPart virtualAddress) = none →
      start.physical.physicalAllocPage.1 ≠ 0)
    (hdirectory : ∀ index : Fin 1024, after.load32 (entry image.pageDirectory (.ofNat 32 index)) =
      directoryAfter image start virtualAddress index) :
    root after image.pageDirectory (directoryPart virtualAddress) =
      some (tableOf image start virtualAddress) := by
  have hload := hdirectory (directoryPart virtualAddress)
  by_cases habsent : root start.memory image.pageDirectory (directoryPart virtualAddress) = none
  · have haligned := (husable (hsome habsent)).aligned
    rw [directoryAfter, if_pos ⟨rfl, habsent⟩] at hload
    rw [root_of_load hload, if_neg (or_three_present _), haligned.frame_of_or (by decide), tableOf, habsent]
    rfl
  · obtain ⟨found, hfound⟩ := Option.ne_none_iff_exists'.mp habsent
    rw [directoryAfter, if_neg fun hboth ↦ habsent hboth.2] at hload
    rw [root_of_load hload, ← root_of_load rfl, tableOf, hfound]
    rfl

theorem Invariant.step {system after : System} {history : List Physical.Event} {taken : Word → Prop}
    {event : Event} (h : Invariant image system history taken)
    (hstep : Step image direct system event after) :
    ∃ newer larger, Invariant image after newer larger := by
  cases hstep with
  | map hexec => exact h.mapOutcome ((pagingMap_spec h.formed h.usable _ fun _ _ _ ↦ rfl).of_exec hexec)
  | unmap hexec =>
    exact ⟨history, taken, h.unmapOutcome ((pagingUnmap_spec h.formed fun _ _ ↦ rfl).of_exec hexec)⟩
  | alloc => exact ⟨_, taken, h.alloc⟩
  | free hmem => exact ⟨_, taken, h.free hmem⟩

/-- The invariant reads the memory through the page directory. -/
theorem Invariant.congr_directory {system : System} {history : List Physical.Event}
    {taken : Word → Prop} (h : Invariant image system history taken) {memory : Memory}
    (hsame : ∀ target, (Region.page image.pageDirectory).Contains target →
      memory target = system.machine.memory target) :
    Invariant image { system with machine := { system.machine with memory := memory } } history taken :=
  { h with formed := h.formed.congr_root (root_congr image.directory_aligned hsame) }

/-- A call of the paging functions changes the page directory and one page table. -/
theorem Invariant.step_frame {system after : System} {history : List Physical.Event}
    {taken : Word → Prop} {event : Event} (h : Invariant image system history taken)
    (hstep : Step image direct system event after) :
    after.machine.memory = system.machine.memory ∨
      after.owned = system.owned ∧
        ∃ index table, root after.machine.memory image.pageDirectory index = some table ∧
          ∀ target, ¬ (Region.page image.pageDirectory).Contains target →
            ¬ (Region.page table).Contains target →
              after.machine.memory target = system.machine.memory target := by
  cases hstep with
  | @map virtualAddress physicalAddress flags result after hexec =>
    have hworks := pagingMap_works h.formed h.usable flags
      fun (_ : Aligned virtualAddress) (_ : Aligned physicalAddress) _ ↦ rfl
    obtain ⟨houtcome, hdirectory⟩ := hworks.of_exec hexec
    by_cases hresult : result = 0
    swap
    · exact .inl (congrArg Machine.memory (h.map_failed houtcome hresult))
    subst hresult
    have hroot := root_of_directoryAfter h.usable (by
      cases houtcome with
      | installed _ _ _ hsome _ _ _ => exact hsome) (hdirectory rfl)
    have hframe := within_frame (aligned_of_root hroot)
      (hworks.allow fun _ _ hallowed ↦ hallowed.touches.within)
    exact .inr ⟨rfl, _, _, hroot, (hframe.of_exec hexec).2⟩
  | @unmap virtualAddress result after hexec =>
    have htouches := pagingUnmap_works h.formed fun (_ : Aligned virtualAddress) _ ↦ rfl
    obtain ⟨houtcome, hdirectory⟩ := htouches.of_exec hexec
    cases houtcome with
    | misaligned _ => exact .inl rfl
    | absent _ _ => exact .inl rfl
    | unmapped _ _ => exact .inl rfl
    | removed _ hmapped _ _ _ =>
      have hpresent : root system.machine.memory image.pageDirectory (directoryPart virtualAddress) ≠
          none := fun habsent ↦ hmapped (Radix.lookup_of_no_root habsent _)
      obtain ⟨table, hroot⟩ := Option.ne_none_iff_exists'.mp hpresent
      have htable : tableOf image system.machine virtualAddress = table := by
        rw [tableOf, hroot]
        rfl
      rw [htable] at htouches
      have hframe := within_frame (aligned_of_root hroot)
        (htouches.allow fun _ _ hallowed ↦ hallowed.1.within)
      refine .inr ⟨rfl, directoryPart virtualAddress, table, ?_, (hframe.of_exec hexec).2⟩
      rw [root_of_load (hdirectory (directoryPart virtualAddress)), ← root_of_load rfl, hroot]
  | alloc => exact .inl rfl
  | free _ => exact .inl rfl

end Paging

/-! ## Heap calls -/

namespace Kmalloc

theorem FreeSpan.in_heap {cells : List Cell} {target : Word} (hextent : Cells.extent 16 cells = 0x100000)
    (h : FreeSpan 0x100000 cells target) : 0x100000 ≤ target.toNat ∧ target.toNat < 0x200000 := by
  obtain ⟨position, cell, hplaced, -, hlow, hhigh⟩ := h
  have hbounds := Cells.placed_bounds hplaced
  rw [hextent] at hbounds
  omega

/-- The heap's clients change bytes of the heap only. -/
theorem Invariant.step_frame {client after : Client} {cells : List Cell} {event : Event}
    (h : Invariant client cells) (hstep : Step client event after) {target : Word}
    (htarget : ¬ (0x100000 ≤ target.toNat ∧ target.toNat < 0x200000)) :
    after.memory target = client.memory target := by
  cases hstep with
  | @kmalloc size result memory hexec =>
    have hframe := ((MemoryProgram.frame (h.kmalloc_spec size)).of_exec hexec).2
    have hkept := hframe target fun hfree ↦ htarget (hfree.in_heap h.extent)
    unfold Client.allocated
    split
    · exact hkept
    · exact hkept
  | @kfree ptr memory hptr hexec =>
    by_cases hnull : ptr = 0
    · subst hnull
      have hsame : client.memory = memory := by
        simpa [Kmalloc.kfree, Program.exec, pure] using hexec
      exact congrFun hsame.symm target
    · obtain ⟨position, cell, hused, rfl, -⟩ := h.cell_of_live (hptr.resolve_left hnull)
      have hframe := ((MemoryProgram.frame (h.kfree_spec hused)).of_exec hexec).2
      have hextent : Cells.extent 16 (Cells.markFree 16 position 0x100000 cells) = 0x100000 :=
        (Cells.extent_markFree ..).trans h.extent
      exact hframe target fun hfree ↦ htarget (hfree.in_heap hextent)
  | @store ptr address value hlive hpayload =>
    apply Memory.store8_of_ne
    rintro rfl
    obtain ⟨position, cell, hused, rfl, hiff⟩ := h.cell_of_live hlive
    have hbounds := (h.placed_spec (Cells.mem_inUse.mp hused).1).1
    have hrange := (hiff target).mp hpayload
    exact htarget ⟨by omega, by omega⟩

/-- The heap's invariant is about the bytes of the heap. -/
theorem Invariant.congr_heap {client : Client} {cells : List Cell} (h : Invariant client cells)
    {memory : Memory} (hsame : ∀ target : Word, 0x100000 ≤ target.toNat → target.toNat < 0x200000 →
      memory target = client.memory target) : Invariant { client with memory := memory } cells := by
  have hrep : Represents memory 0x100000 cells := by
    apply h.represents.frame (by rw [h.extent]; decide)
    intro position cell hplaced target hlow hhigh
    have hbounds := (h.placed_spec hplaced).1
    exact hsame target (by omega) (by omega)
  exact
    { h with
      represents := hrep
      stored := by
        intro ptr hlive target hpayload value hstored
        obtain ⟨position, cell, hused, rfl, hiff⟩ := h.cell_of_live hlive
        have hbefore := (h.payload_congr hrep h.extent hused hused target).mp hpayload
        have hbounds := (h.placed_spec (Cells.mem_inUse.mp hused).1).1
        have hrange := (hiff target).mp hbefore
        change memory target = value
        rw [hsame target (by omega) (by omega)]
        exact h.stored _ hlive target hbefore value hstored }

end Kmalloc

end NeilOS
