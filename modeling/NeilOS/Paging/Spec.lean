import NeilOS.Paging.Tables

/-!
# What the paging functions do

Each function is specified once, over direct access. The specification bounds the result and the
final state and, through the guarantee `Works`, every single operation on the way: accesses go to
the page directory or to the one page table the call works on, and at that moment the mappings are
those of the start, up to the one the call installs. `Touches` is the part of it that the runs
through the tables use.
-/

namespace NeilOS.Paging

open Foundation Program

section Operations

variable {guarantee : Machine → PagingOp → Prop} {machine : Machine}

@[simp]
theorem meets_load (address : Word) (post : Word → Machine → Prop) :
    Meets (handle direct) guarantee (load address) machine post ↔
      guarantee machine (.load address) ∧ post (machine.memory.load32 address) machine := by
  unfold load
  simp [Meets, handle, direct]

@[simp]
theorem meets_store (address value : Word) (post : Unit → Machine → Prop) :
    Meets (handle direct) guarantee (store address value) machine post ↔
      guarantee machine (.store address value) ∧
        post () { machine with memory := machine.memory.store32 address value } := by
  unfold store
  simp [Meets, handle, direct]

@[simp]
theorem meets_pagingInvalidatePage (address : Word) (post : Unit → Machine → Prop) :
    Meets (handle direct) guarantee (pagingInvalidatePage address) machine post ↔
      guarantee machine (.invlpg address) ∧ post () machine := by
  unfold pagingInvalidatePage
  simp [Meets, handle]

@[simp]
theorem meets_pagingLoadCr3 (address : Word) (post : Unit → Machine → Prop) :
    Meets (handle direct) guarantee (pagingLoadCr3 address) machine post ↔
      guarantee machine (.loadCr3 address) ∧ post () { machine with cr3 := address } := by
  unfold pagingLoadCr3
  simp [Meets, handle]

@[simp]
theorem meets_pagingEnable (post : Unit → Machine → Prop) :
    Meets (handle direct) guarantee pagingEnable machine post ↔
      guarantee machine .enablePaging ∧ post () { machine with pagingEnabled := true } := by
  unfold pagingEnable
  simp [Meets, handle]

@[simp]
theorem meets_physicalAllocPage (post : Word → Machine → Prop) :
    Meets (handle direct) guarantee physicalAllocPage machine post ↔
      guarantee machine .physicalAllocPage ∧
        post machine.physical.physicalAllocPage.1
          { machine with physical := machine.physical.physicalAllocPage.2 } := by
  unfold physicalAllocPage
  simp [Meets, handle]

@[simp]
theorem meets_fvgaWrite (format : String) (arguments : List Word) (post : Unit → Machine → Prop) :
    Meets (handle direct) guarantee (fvgaWrite format arguments) machine post ↔
      guarantee machine (.fvgaWrite format arguments) ∧ post () machine := by
  unfold fvgaWrite
  simp [Meets, handle]

end Operations

/-! ## The guarantee -/

/-- The registers are those of the start, and so is every mapping that existed there. -/
structure Keeps (image : PagingImage) (start machine : Machine) : Prop where
  cr3 : machine.cr3 = start.cr3
  pagingEnabled : machine.pagingEnabled = start.pagingEnabled
  mapped : ∀ address value, walk start.memory image.pageDirectory address = some value →
    walk machine.memory image.pageDirectory address = some value

def Touches (image : PagingImage) (table : Word) (start machine : Machine) (op : PagingOp) : Prop :=
  ∀ address, op.accessed = some address → Keeps image start machine ∧
    ∃ index < 1024, address = entry image.pageDirectory (.ofNat 32 index) ∨
      address = entry table (.ofNat 32 index)

theorem Keeps.refl (image : PagingImage) (start : Machine) : Keeps image start start :=
  ⟨rfl, rfl, fun _ _ h ↦ h⟩

/-- The frame of the page table a call for `address` works on: the one in the directory, else the
one the allocator would hand out. -/
def tableOf (image : PagingImage) (start : Machine) (address : Word) : Word :=
  (root start.memory image.pageDirectory (directoryPart address)).getD
    start.physical.physicalAllocPage.1

/-- A call for `address` gets as far as its page table. -/
def UsesTable (image : PagingImage) (start : Machine) (address : Word) : Prop :=
  root start.memory image.pageDirectory (directoryPart address) ≠ none ∨
    start.physical.physicalAllocPage.1 ≠ 0

/-- The entry that `paging_map` leaves behind. -/
def mappedEntry (physicalAddress flags : Word) : Word :=
  ((physicalAddress &&& pageAddressMask) ||| (flags &&& ~~~pageAddressMask)) ||| pagePresent

/-- A call of `paging_map` gets as far as the page-table entry. -/
def Installs (image : PagingImage) (start : Machine) (virtualAddress physicalAddress : Word) : Prop :=
  Aligned virtualAddress ∧ Aligned physicalAddress ∧ UsesTable image start virtualAddress

/-- A call of `paging_map` is on its way: at most its own page is mapped in addition. -/
structure Progress (image : PagingImage) (virtualAddress physicalAddress flags : Word)
    (start machine : Machine) : Prop where
  cr3 : machine.cr3 = start.cr3
  pagingEnabled : machine.pagingEnabled = start.pagingEnabled
  found : ∀ other : Word, walk machine.memory image.pageDirectory other =
      walk start.memory image.pageDirectory other ∨
    (Installs image start virtualAddress physicalAddress ∧
      other.toNat / 4096 = virtualAddress.toNat / 4096 ∧
      walk start.memory image.pageDirectory other = none ∧
      walk machine.memory image.pageDirectory other = some (mappedEntry physicalAddress flags))

/-- What an operation of `paging_map` may do. A frame is asked for only where the directory has no
page table. -/
structure Works (image : PagingImage) (table virtualAddress physicalAddress flags : Word)
    (start machine : Machine) (op : PagingOp) : Prop where
  progress : Progress image virtualAddress physicalAddress flags start machine
  access : ∀ target, op.accessed = some target → ∃ index < 1024,
    target = entry image.pageDirectory (.ofNat 32 index) ∨ target = entry table (.ofNat 32 index)
  request : op = .physicalAllocPage →
    root start.memory image.pageDirectory (directoryPart virtualAddress) = none

theorem Progress.refl (image : PagingImage) (virtualAddress physicalAddress flags : Word)
    (start : Machine) : Progress image virtualAddress physicalAddress flags start start :=
  ⟨rfl, rfl, fun _ ↦ .inl rfl⟩

theorem Progress.keeps {image : PagingImage} {virtualAddress physicalAddress flags : Word}
    {start machine : Machine}
    (h : Progress image virtualAddress physicalAddress flags start machine) :
    Keeps image start machine := by
  refine ⟨h.cr3, h.pagingEnabled, fun other value hvalue ↦ ?_⟩
  rcases h.found other with hsame | ⟨-, -, hnone, -⟩
  · exact hsame.trans hvalue
  · rw [hnone] at hvalue
    cases hvalue

theorem Works.touches {image : PagingImage} {table virtualAddress physicalAddress flags : Word}
    {start machine : Machine} {op : PagingOp}
    (h : Works image table virtualAddress physicalAddress flags start machine op) :
    Touches image table start machine op :=
  fun target htarget ↦ ⟨h.progress.keeps, h.access target htarget⟩

/-- Operations other than loads and stores touch nothing. -/
theorem touches_of_no_access {image : PagingImage} {table : Word} {start machine : Machine}
    {op : PagingOp} (h : op.accessed = none) : Touches image table start machine op := by
  intro address haddress
  rw [h] at haddress
  cases haddress

theorem touches_directory {image : PagingImage} {table : Word} {start machine : Machine}
    {op : PagingOp} {index : ℕ} (hindex : index < 1024) (hkeeps : Keeps image start machine)
    (h : op.accessed = some (entry image.pageDirectory (.ofNat 32 index))) :
    Touches image table start machine op := by
  intro address haddress
  rw [h] at haddress
  exact ⟨hkeeps, index, hindex, .inl (Option.some.inj haddress).symm⟩

theorem touches_table {image : PagingImage} {table : Word} {start machine : Machine}
    {op : PagingOp} {index : ℕ} (hindex : index < 1024) (hkeeps : Keeps image start machine)
    (h : op.accessed = some (entry table (.ofNat 32 index))) : Touches image table start machine op := by
  intro address haddress
  rw [h] at haddress
  exact ⟨hkeeps, index, hindex, .inr (Option.some.inj haddress).symm⟩

namespace Progress

variable {image : PagingImage} {table virtualAddress physicalAddress flags : Word}
  {start machine : Machine} {op : PagingOp}

theorem works_of_no_access (h : Progress image virtualAddress physicalAddress flags start machine)
    (haccessed : op.accessed = none)
    (hrequest : op = .physicalAllocPage →
      root start.memory image.pageDirectory (directoryPart virtualAddress) = none) :
    Works image table virtualAddress physicalAddress flags start machine op := by
  refine ⟨h, fun target htarget ↦ ?_, hrequest⟩
  rw [haccessed] at htarget
  cases htarget

theorem works_of_access (h : Progress image virtualAddress physicalAddress flags start machine) {index : ℕ} {target : Word}
    (hindex : index < 1024)
    (htarget : target = entry image.pageDirectory (.ofNat 32 index) ∨
      target = entry table (.ofNat 32 index)) (haccessed : op.accessed = some target) :
    Works image table virtualAddress physicalAddress flags start machine op := by
  refine ⟨h, fun other hother ↦ ?_, fun hop ↦ ?_⟩
  · rw [haccessed] at hother
    exact ⟨index, hindex, Option.some.inj hother ▸ htarget⟩
  · rw [hop] at haccessed
    cases haccessed

theorem works_directory (h : Progress image virtualAddress physicalAddress flags start machine) {index : ℕ}
    (hindex : index < 1024)
    (haccessed : op.accessed = some (entry image.pageDirectory (.ofNat 32 index))) :
    Works image table virtualAddress physicalAddress flags start machine op :=
  h.works_of_access hindex (.inl rfl) haccessed

theorem works_table (h : Progress image virtualAddress physicalAddress flags start machine) {index : ℕ}
    (hindex : index < 1024) (haccessed : op.accessed = some (entry table (.ofNat 32 index))) :
    Works image table virtualAddress physicalAddress flags start machine op :=
  h.works_of_access hindex (.inr rfl) haccessed

end Progress

/-! ## Creating a page table -/

/-- The frame the allocator would hand out next, if any, is usable as a page table. -/
structure Usable (taken : Word → Prop) (table : Word) : Prop where
  aligned : Aligned table
  high : 0x200000 ≤ table.toNat
  fresh : ¬ taken table

/-- The first `count` entries of a table have been written, and nothing else. -/
structure Filled (table : Word) (content : ℕ → Word) (count : ℕ) (before after : Memory) : Prop where
  entries : ∀ index < count, after.load32 (entry table (.ofNat 32 index)) = content index
  outside : SameOutside table before after

theorem Filled.store {table : Word} {content : ℕ → Word} {count : ℕ} {before after : Memory}
    (h : Filled table content count before after) (htable : Aligned table) (hcount : count < 1024) :
    Filled table content (count + 1) before
      (after.store32 (entry table (.ofNat 32 count)) (content count)) := by
  refine ⟨fun index hindex ↦ ?_, h.outside.trans (sameOutside_store htable hcount _)⟩
  rw [load_store_entry htable htable hcount (by omega)]
  split
  · rename_i hsame
    rw [hsame.2]
  · rename_i hne
    have hindices : index ≠ count := fun heq ↦ hne ⟨rfl, heq⟩
    exact h.entries index (by omega)

/-- The loops that write a whole table. -/
theorem meets_fill {guarantee : Machine → PagingOp → Prop} {table : Word} (htable : Aligned table)
    (content : ℕ → Word) (start : Machine)
    (hallowed : ∀ index < 1024, ∀ memory, SameOutside table start.memory memory →
      guarantee { start with memory := memory } (.store (entry table (.ofNat 32 index)) (content index))) :
    Meets (handle direct) guarantee
      (forRange 1024 fun index ↦ store (entry table (.ofNat 32 index)) (content index)) start
      fun _ after ↦ ∃ memory, after = { start with memory := memory } ∧
        Filled table content 1024 start.memory memory := by
  apply meets_forRange fun (count : ℕ) (machine : Machine) ↦ ∃ memory : Memory,
    machine = { start with memory := memory } ∧ Filled table content count start.memory memory
  · exact ⟨_, rfl, fun index hindex ↦ absurd hindex (Nat.not_lt_zero index), fun _ _ _ _ _ ↦ rfl⟩
  · rintro index hindex machine ⟨memory, rfl, hfilled⟩
    rw [meets_store]
    exact ⟨hallowed index hindex memory hfilled.outside, _, rfl, hfilled.store htable hindex⟩

theorem allocatePageTable_spec {image : PagingImage} {taken : Word → Prop} {start : Machine}
    {table virtualAddress : Word} (physicalAddress flags : Word)
    (hformed : WellFormed image taken start.memory)
    (husable : start.physical.physicalAllocPage.1 ≠ 0 →
      Usable taken start.physical.physicalAllocPage.1)
    (habsent : root start.memory image.pageDirectory (directoryPart virtualAddress) = none)
    (htable : start.physical.physicalAllocPage.1 ≠ 0 → table = start.physical.physicalAllocPage.1) :
    Meets (handle direct) (Works image table virtualAddress physicalAddress flags start)
      allocatePageTable start fun frame after ↦ frame = start.physical.physicalAllocPage.1 ∧ ∃ memory, after =
        { start with physical := start.physical.physicalAllocPage.2, memory := memory } ∧
          if start.physical.physicalAllocPage.1 = 0 then memory = start.memory
          else Filled start.physical.physicalAllocPage.1 (fun _ ↦ 0) 1024 start.memory memory := by
  unfold allocatePageTable
  rw [meets_bind, meets_physicalAllocPage]
  refine ⟨(Progress.refl image virtualAddress physicalAddress flags start).works_of_no_access rfl
    fun _ ↦ habsent, ?_⟩
  by_cases hzero : start.physical.physicalAllocPage.1 = 0
  · rw [if_pos hzero, meets_pure]
    exact ⟨hzero.symm, _, rfl, by rw [if_pos hzero]⟩
  have hframe := husable hzero
  rw [htable hzero]
  simp only [if_neg hzero]
  apply Meets.bind (meets_fill hframe.aligned (fun _ ↦ 0) _ _)
  · rintro - after ⟨memory, rfl, hfilled⟩
    exact ⟨rfl, memory, rfl, hfilled⟩
  · intro index hindex memory hsame
    have hwalk := (hformed.walk_of_fresh hframe.high hframe.fresh hsame).2
    exact Progress.works_table ⟨rfl, rfl, fun other ↦ .inl (hwalk other)⟩ hindex rfl

/-! ## Mapping -/

theorem mappedEntry_present (physicalAddress flags : Word) :
    mappedEntry physicalAddress flags &&& 1 ≠ 0 := by
  intro hbits
  have hlow := congrArg (fun word ↦ word.getLsbD 0) hbits
  simp [mappedEntry, pagePresent] at hlow

theorem mappedEntry_frame {physicalAddress : Word} (h : Aligned physicalAddress) (flags : Word) :
    mappedEntry physicalAddress flags &&& 0xFFFFF000 = physicalAddress := by
  have hflags : (flags &&& ~~~pageAddressMask) &&& 0xFFFFF000 = 0 := by
    rw [BitVec.and_assoc]
    exact BitVec.and_zero
  calc
    mappedEntry physicalAddress flags &&& 0xFFFFF000 =
        ((physicalAddress &&& 0xFFFFF000 ||| (flags &&& ~~~pageAddressMask)) &&& 0xFFFFF000) ||| 0 := by
      rw [mappedEntry, BitVec.and_or_distrib_right]
      rfl
    _ = physicalAddress ||| 0 ||| 0 := by
      rw [BitVec.and_or_distrib_right, hflags, h.and_frame, h.and_frame]
    _ = physicalAddress := by simp

theorem mappedEntry_offset {physicalAddress : Word} (h : Aligned physicalAddress) (flags : Word) :
    mappedEntry physicalAddress flags &&& 0xFFF = (flags &&& 0xFFF) ||| pagePresent := by
  have hflags : (flags &&& ~~~pageAddressMask) &&& 0xFFF = flags &&& 0xFFF := by
    rw [BitVec.and_assoc]
    rfl
  calc
    mappedEntry physicalAddress flags &&& 0xFFF =
        ((physicalAddress &&& 0xFFFFF000 ||| (flags &&& ~~~pageAddressMask)) &&& 0xFFF) |||
          pagePresent := by
      rw [mappedEntry, BitVec.and_or_distrib_right]
      rfl
    _ = 0 ||| (flags &&& 0xFFF) ||| pagePresent := by
      rw [BitVec.and_or_distrib_right, hflags, h.and_frame, h.and_offset]
    _ = (flags &&& 0xFFF) ||| pagePresent := by simp

/-- The two stores of `paging_map` make the walk find either nothing or the final entry. -/
theorem Progress.of_store {image : PagingImage} {start machine : Machine} {memory : Memory}
    {virtualAddress physicalAddress flags : Word}
    (h : Progress image virtualAddress physicalAddress flags start machine)
    (hinstalls : Installs image start virtualAddress physicalAddress)
    (hunmapped : walk machine.memory image.pageDirectory virtualAddress = none)
    (hfound : walk memory image.pageDirectory virtualAddress = none ∨
      walk memory image.pageDirectory virtualAddress = some (mappedEntry physicalAddress flags))
    (hothers : ∀ other : Word, other.toNat / 4096 ≠ virtualAddress.toNat / 4096 →
      walk memory image.pageDirectory other = walk machine.memory image.pageDirectory other) :
    Progress image virtualAddress physicalAddress flags start { machine with memory := memory } := by
  refine ⟨h.cr3, h.pagingEnabled, fun other ↦ ?_⟩
  change walk memory image.pageDirectory other = _ ∨ _
  by_cases hpage : other.toNat / 4096 = virtualAddress.toNat / 4096
  · have hnone : walk start.memory image.pageDirectory other = none := by
      rcases h.found other with hsame | ⟨-, -, hnone, -⟩
      · rw [← hsame, walk_congr_page hpage, hunmapped]
      · exact hnone
    rw [hnone, walk_congr_page hpage]
    exact hfound.imp_right fun hsome ↦ ⟨hinstalls, hpage, rfl, hsome⟩
  · rw [hothers other hpage]
    exact h.found other

/-- Without its present bit an entry is ignored; with it, it is the one `paging_map` wants. -/
theorem unfinished_entry (physicalAddress flags : Word) {found : Option Word}
    (h : found = if ((physicalAddress &&& pageAddressMask) ||| (flags &&& ~~~pageAddressMask)) &&& 1 = 0
      then none else some ((physicalAddress &&& pageAddressMask) ||| (flags &&& ~~~pageAddressMask))) :
    found = none ∨ found = some (mappedEntry physicalAddress flags) := by
  rw [h]
  split
  · exact .inl rfl
  · rename_i hpresent
    refine .inr (congrArg some ?_)
    rw [mappedEntry]
    exact (or_present hpresent).symm

theorem pagingMapInstall_spec {image : PagingImage} {taken : Word → Prop} {start machine : Machine}
    {virtualAddress table : Word} (physicalAddress flags : Word)
    (hformed : WellFormed image taken machine.memory)
    (hprogress : Progress image virtualAddress physicalAddress flags start machine)
    (hinstalls : Installs image start virtualAddress physicalAddress)
    (hroot : root machine.memory image.pageDirectory (directoryPart virtualAddress) = some table) :
    Meets (handle direct) (Works image table virtualAddress physicalAddress flags start)
      (pagingMapInstall table (pageTableIndex virtualAddress) virtualAddress physicalAddress flags)
      machine fun result after ↦
        (walk machine.memory image.pageDirectory virtualAddress ≠ none ∧ result = -3 ∧
          after = machine) ∨
        (walk machine.memory image.pageDirectory virtualAddress = none ∧ result = 0 ∧
          ∃ memory, after = { machine with memory := memory } ∧ WellFormed image taken memory ∧
            SameOutside table machine.memory memory ∧
            walk memory image.pageDirectory virtualAddress = some (mappedEntry physicalAddress flags) ∧
            ∀ other : Word, other.toNat / 4096 ≠ virtualAddress.toNat / 4096 →
              walk memory image.pageDirectory other =
                walk machine.memory image.pageDirectory other) := by
  have haligned := aligned_of_root hroot
  have hslot := (tablePart virtualAddress).isLt
  have hwalk : walk machine.memory image.pageDirectory virtualAddress =
      slots machine.memory table (tablePart virtualAddress) := Radix.lookup_of_root hroot _
  unfold pagingMapInstall
  rw [pageTableIndex_eq, meets_bind, meets_load]
  refine ⟨hprogress.works_table hslot rfl, ?_⟩
  by_cases hpresent : machine.memory.load32
      (entry table (.ofNat 32 (tablePart virtualAddress))) &&& pagePresent = 0
  · have hunmapped : walk machine.memory image.pageDirectory virtualAddress = none := by
      rw [hwalk, slots_of_load rfl]
      exact if_pos hpresent
    have hfirst := fun value ↦ hformed.store_entry hroot value rfl
    rw [if_pos hpresent]
    simp only [meets_bind, meets_store, meets_load, meets_pagingInvalidatePage, meets_pure,
      Memory.load32_store32]
    have hstored := hfirst ((physicalAddress &&& pageAddressMask) ||| (flags &&& ~~~pageAddressMask))
    have hsecond := (hformed.congr_root hstored.1).store_entry
      (by rw [hstored.1]; exact hroot) (mappedEntry physicalAddress flags) rfl
    have hfinal := hsecond.2.1.trans (if_neg (mappedEntry_present physicalAddress flags))
    have hothers (other : Word) (hpage : other.toNat / 4096 ≠ virtualAddress.toNat / 4096) :=
      (hsecond.2.2 other hpage).trans (hstored.2.2 other hpage)
    have hhalf := hprogress.of_store hinstalls hunmapped
      (unfinished_entry physicalAddress flags hstored.2.1) hstored.2.2
    have hdone := hprogress.of_store hinstalls hunmapped (.inr hfinal) hothers
    refine ⟨hprogress.works_table hslot rfl, hhalf.works_table hslot rfl,
      hhalf.works_table hslot rfl, hdone.works_of_no_access rfl (fun hop ↦ by cases hop),
      .inr ⟨hunmapped, trivial, _, rfl, ?_, ?_, hfinal, hothers⟩⟩
    · exact (hformed.congr_root hstored.1).congr_root hsecond.1
    · exact (sameOutside_store haligned hslot _).trans (sameOutside_store haligned hslot _)
  · have hmapped : walk machine.memory image.pageDirectory virtualAddress ≠ none := by
      rw [hwalk, slots_of_load rfl]
      rw [show (1 : Word) = pagePresent from rfl, if_neg hpresent]
      exact Option.some_ne_none _
    rw [if_neg hpresent, meets_pure]
    exact .inl ⟨hmapped, rfl, rfl⟩

/-- The frames taken after a call that works on the table of `address`. -/
def takenAfter (image : PagingImage) (taken : Word → Prop) (start : Machine) (address table : Word) :
    Prop :=
  taken table ∨ (root start.memory image.pageDirectory (directoryPart address) = none ∧
    table = start.physical.physicalAllocPage.1)

/-- What `pagingMapTable` leaves behind when it found or made a table. -/
structure TableReady (image : PagingImage) (taken : Word → Prop) (start : Machine) (address : Word)
    (memory : Memory) : Prop where
  formed : WellFormed image (takenAfter image taken start address) memory
  root : root memory image.pageDirectory (directoryPart address) = some (tableOf image start address)
  walk : ∀ other, walk memory image.pageDirectory other = walk start.memory image.pageDirectory other
  kept : Paging.root start.memory image.pageDirectory (directoryPart address) ≠ none →
    memory = start.memory

/-- The allocator's state after a call that works on the table of `address`. -/
def physicalAfter (image : PagingImage) (start : Machine) (address : Word) : Physical :=
  if root start.memory image.pageDirectory (directoryPart address) = none then
    start.physical.physicalAllocPage.2
  else start.physical

/-- The directory entry at `index` after a call that works on the table of `address`. -/
def directoryAfter (image : PagingImage) (start : Machine) (address : Word) (index : Fin 1024) : Word :=
  if index = directoryPart address ∧ root start.memory image.pageDirectory index = none then
    start.physical.physicalAllocPage.1 ||| 3
  else start.memory.load32 (entry image.pageDirectory (.ofNat 32 index))

/-- The directory, once an empty frame was filled and hung under an absent entry. -/
theorem directory_of_hang {image : PagingImage} {start : Machine} {filled : Memory} {address : Word}
    (habsent : root start.memory image.pageDirectory (directoryPart address) = none)
    (haligned : Aligned start.physical.physicalAllocPage.1)
    (hdistinct : image.pageDirectory ≠ start.physical.physicalAllocPage.1)
    (hsame : SameOutside start.physical.physicalAllocPage.1 start.memory filled) (index : Fin 1024) :
    (filled.store32 (entry image.pageDirectory (.ofNat 32 (directoryPart address)))
      ((start.physical.physicalAllocPage.1 &&& pageAddressMask) ||| pagePresent ||| pageWritable)).load32
        (entry image.pageDirectory (.ofNat 32 index)) = directoryAfter image start address index := by
  have hdirectory : Aligned image.pageDirectory := image.directory_aligned
  rw [load_store_entry hdirectory hdirectory (directoryPart address).isLt index.isLt, directoryAfter]
  by_cases hindex : index = directoryPart address
  · subst hindex
    rw [if_pos ⟨rfl, rfl⟩, if_pos ⟨rfl, habsent⟩, BitVec.or_assoc]
    exact congrArg (· ||| 3) haligned.and_frame
  · rw [if_neg fun hboth ↦ hindex (Fin.ext hboth.2), if_neg fun hboth ↦ hindex hboth.1]
    exact hsame _ hdirectory hdistinct index index.isLt

theorem pagingMapTable_spec {image : PagingImage} {taken : Word → Prop} {start : Machine}
    {virtualAddress directoryEntry table : Word} (physicalAddress flags : Word)
    (hformed : WellFormed image taken start.memory)
    (husable : start.physical.physicalAllocPage.1 ≠ 0 →
      Usable taken start.physical.physicalAllocPage.1)
    (hentry : start.memory.load32 (entry image.pageDirectory
      (.ofNat 32 (directoryPart virtualAddress))) = directoryEntry)
    (htable : UsesTable image start virtualAddress → table = tableOf image start virtualAddress) :
    Meets (handle direct) (Works image table virtualAddress physicalAddress flags start)
      (pagingMapTable image (pageDirectoryIndex virtualAddress) directoryEntry) start
      fun found after ↦
        (found = none ∧ root start.memory image.pageDirectory (directoryPart virtualAddress) = none ∧
          start.physical.physicalAllocPage.1 = 0 ∧
          after = { start with physical := start.physical.physicalAllocPage.2 }) ∨
        (found = some (tableOf image start virtualAddress) ∧
          (root start.memory image.pageDirectory (directoryPart virtualAddress) = none →
            start.physical.physicalAllocPage.1 ≠ 0) ∧
          ∃ memory, TableReady image taken start virtualAddress memory ∧
            (∀ index : Fin 1024, memory.load32 (entry image.pageDirectory (.ofNat 32 index)) =
              directoryAfter image start virtualAddress index) ∧ after =
            { start with memory := memory, physical := physicalAfter image start virtualAddress }) := by
  have hroot := root_of_load hentry
  have hpart := (directoryPart virtualAddress).isLt
  unfold pagingMapTable
  by_cases hpresent : directoryEntry &&& pagePresent = 0
  · have habsent : root start.memory image.pageDirectory (directoryPart virtualAddress) = none := by
      rw [hroot]
      exact if_pos hpresent
    have hcreated : tableOf image start virtualAddress = start.physical.physicalAllocPage.1 := by
      rw [tableOf, habsent]
      rfl
    rw [if_pos hpresent, hcreated]
    apply (allocatePageTable_spec physicalAddress flags hformed husable habsent fun hsome ↦
      (htable (.inr hsome)).trans hcreated).bind
    rintro frame after ⟨rfl, memory, rfl, hmemory⟩
    by_cases hzero : start.physical.physicalAllocPage.1 = 0
    · rw [if_pos hzero] at hmemory ⊢
      rw [hmemory, meets_pure]
      exact .inl ⟨rfl, habsent, hzero, rfl⟩
    · rw [if_neg hzero] at hmemory ⊢
      obtain ⟨haligned, hhigh, hfresh⟩ := husable hzero
      obtain ⟨hsameRoot, hwalk⟩ := hformed.walk_of_fresh hhigh hfresh hmemory.outside
      obtain ⟨hhung, hrootAfter, hwalkAfter⟩ := (hformed.congr_root hsameRoot).hang_table
        (by rw [hsameRoot]; exact habsent) haligned hhigh hfresh hmemory.entries rfl
      rw [pageDirectoryIndex_eq]
      simp only [meets_bind, meets_store, meets_pure]
      have hready : TableReady image taken start virtualAddress _ :=
        ⟨hhung.mono (fun table htaken ↦ htaken.imp_right fun heq ↦ ⟨habsent, heq⟩)
            fun table htaken ↦ hhung.high table (htaken.imp_right And.right),
          by rw [hcreated]; exact hrootAfter, fun other ↦ (hwalkAfter other).trans (hwalk other),
          fun hpresent ↦ absurd habsent hpresent⟩
      have hprogress : Progress image virtualAddress physicalAddress flags start
          { start with physical := start.physical.physicalAllocPage.2, memory := memory } :=
        ⟨rfl, rfl, fun other ↦ .inl (hwalk other)⟩
      refine ⟨hprogress.works_directory hpart rfl, .inr ⟨rfl, fun _ ↦ hzero, _, hready, ?_, ?_⟩⟩
      · exact directory_of_hang habsent haligned (hhung.ne_directory hrootAfter) hmemory.outside
      · rw [physicalAfter, if_pos habsent]
        rfl
  · have hfound : root start.memory image.pageDirectory (directoryPart virtualAddress) =
        some (directoryEntry &&& pageAddressMask) := by
      rw [hroot]
      exact if_neg hpresent
    have hsame : tableOf image start virtualAddress = directoryEntry &&& pageAddressMask := by
      rw [tableOf, hfound]
      rfl
    rw [if_neg hpresent, meets_pure]
    refine .inr ⟨by rw [hsame]; rfl, by simp [hfound], start.memory,
      ⟨?_, ?_, fun _ ↦ rfl, fun _ ↦ rfl⟩, fun index ↦ ?_, ?_⟩
    · refine hformed.mono (fun table htaken ↦ .inl htaken) fun table htaken ↦ ?_
      rcases htaken with htaken | ⟨habsent, -⟩
      · exact hformed.high table htaken
      · rw [hfound] at habsent
        cases habsent
    · rw [hfound, hsame]
    · rw [directoryAfter, if_neg]
      rintro ⟨rfl, habsent⟩
      rw [hfound] at habsent
      cases habsent
    · rw [physicalAfter, if_neg (by simp [hfound])]

/-- Everything a call of `paging_map` can do. -/
inductive MapOutcome (image : PagingImage) (taken : Word → Prop) (start : Machine)
    (virtualAddress physicalAddress flags : Word) : ℤ → Machine → Prop where
  | misaligned : ¬ Aligned virtualAddress ∨ ¬ Aligned physicalAddress →
      MapOutcome image taken start virtualAddress physicalAddress flags (-1) start
  | mapped : Aligned virtualAddress → Aligned physicalAddress →
      walk start.memory image.pageDirectory virtualAddress ≠ none →
      MapOutcome image taken start virtualAddress physicalAddress flags (-3) start
  | full : Aligned virtualAddress → Aligned physicalAddress →
      root start.memory image.pageDirectory (directoryPart virtualAddress) = none →
      start.physical.physicalAllocPage.1 = 0 →
      MapOutcome image taken start virtualAddress physicalAddress flags (-2)
        { start with physical := start.physical.physicalAllocPage.2 }
  | installed {memory : Memory} : Aligned virtualAddress → Aligned physicalAddress →
      walk start.memory image.pageDirectory virtualAddress = none →
      (root start.memory image.pageDirectory (directoryPart virtualAddress) = none →
        start.physical.physicalAllocPage.1 ≠ 0) →
      WellFormed image (takenAfter image taken start virtualAddress) memory →
      walk memory image.pageDirectory virtualAddress = some (mappedEntry physicalAddress flags) →
      (∀ other : Word, other.toNat / 4096 ≠ virtualAddress.toNat / 4096 →
        walk memory image.pageDirectory other = walk start.memory image.pageDirectory other) →
      MapOutcome image taken start virtualAddress physicalAddress flags 0
        { start with memory := memory, physical := physicalAfter image start virtualAddress }

theorem not_pageAddressValid_iff (address : Word) :
    ((!pageAddressValid address) = true) ↔ ¬ Aligned address := by
  rw [← pageAddressValid_iff, Bool.not_eq_true', Bool.not_eq_true]

theorem pagingMap_works {image : PagingImage} {taken : Word → Prop} {start : Machine}
    (hformed : WellFormed image taken start.memory)
    (husable : start.physical.physicalAllocPage.1 ≠ 0 →
      Usable taken start.physical.physicalAllocPage.1) {virtualAddress physicalAddress table : Word}
    (flags : Word) (htable : Aligned virtualAddress → Aligned physicalAddress →
      UsesTable image start virtualAddress → table = tableOf image start virtualAddress) :
    Meets (handle direct) (Works image table virtualAddress physicalAddress flags start)
      (pagingMap image virtualAddress physicalAddress flags) start fun result after ↦
        MapOutcome image taken start virtualAddress physicalAddress flags result after ∧
        (result = 0 → ∀ index : Fin 1024,
          after.memory.load32 (entry image.pageDirectory (.ofNat 32 index)) =
            directoryAfter image start virtualAddress index) := by
  have hprogress := Progress.refl image virtualAddress physicalAddress flags start
  have hprint (format : String) (arguments : List Word) :
      Works image table virtualAddress physicalAddress flags start start
        (.fvgaWrite format arguments) := hprogress.works_of_no_access rfl (fun hop ↦ nomatch hop)
  unfold pagingMap
  simp only [meets_bind, meets_fvgaWrite]
  refine ⟨hprint _ _, hprint _ _, ?_⟩
  by_cases hvirtual : Aligned virtualAddress
  swap
  · rw [if_pos ((not_pageAddressValid_iff _).mpr hvirtual)]
    simp only [meets_bind, meets_fvgaWrite, meets_pure]
    exact ⟨hprint _ _, .misaligned (.inl hvirtual), fun hresult ↦ absurd hresult (by decide)⟩
  by_cases hphysical : Aligned physicalAddress
  swap
  · rw [if_neg fun h ↦ (not_pageAddressValid_iff _).mp h hvirtual,
      if_pos ((not_pageAddressValid_iff _).mpr hphysical)]
    simp only [meets_bind, meets_fvgaWrite, meets_pure]
    exact ⟨hprint _ _, .misaligned (.inr hphysical), fun hresult ↦ absurd hresult (by decide)⟩
  rw [if_neg fun h ↦ (not_pageAddressValid_iff _).mp h hvirtual,
    if_neg fun h ↦ (not_pageAddressValid_iff _).mp h hphysical,
    if_neg (by simp [(pageAddressValid_iff _).mpr hvirtual, (pageAddressValid_iff _).mpr hphysical])]
  simp only [meets_bind, meets_load]
  refine ⟨hprogress.works_directory (directoryPart virtualAddress).isLt
    (by rw [pageDirectoryIndex_eq]; rfl), ?_⟩
  apply (pagingMapTable_spec physicalAddress flags hformed husable (by rw [pageDirectoryIndex_eq])
    (htable hvirtual hphysical)).mono
  rintro found after (⟨rfl, habsent, hnone, rfl⟩ | ⟨rfl, hsome, memory, hready, hdirectory, rfl⟩)
  · exact ⟨.full hvirtual hphysical habsent hnone, fun hresult ↦ absurd hresult (by decide)⟩
  · have huses : UsesTable image start virtualAddress := by
      by_cases habsent : root start.memory image.pageDirectory (directoryPart virtualAddress) = none
      · exact .inr (hsome habsent)
      · exact .inl habsent
    rw [htable hvirtual hphysical huses]
    have hmiddle : Progress image virtualAddress physicalAddress flags start
        { start with memory := memory, physical := physicalAfter image start virtualAddress } :=
      ⟨rfl, rfl, fun other ↦ .inl (hready.walk other)⟩
    apply (pagingMapInstall_spec physicalAddress flags hready.formed hmiddle ⟨hvirtual, hphysical, huses⟩
      hready.root).mono
    rintro result last
      (⟨hmapped, rfl, rfl⟩ | ⟨hunmapped, rfl, final, rfl, hfinal, houtside, hwalk, hothers⟩)
    · rw [hready.walk] at hmapped
      have hpresent : root start.memory image.pageDirectory (directoryPart virtualAddress) ≠ none :=
        fun habsent ↦ hmapped (Radix.lookup_of_no_root habsent _)
      rw [hready.kept hpresent, physicalAfter, if_neg hpresent]
      exact ⟨.mapped hvirtual hphysical hmapped, fun hresult ↦ absurd hresult (by decide)⟩
    · rw [hready.walk] at hunmapped
      refine ⟨.installed hvirtual hphysical hunmapped hsome hfinal hwalk
        fun other hpage ↦ (hothers other hpage).trans (hready.walk other), fun _ index ↦ ?_⟩
      rw [← hdirectory index]
      exact houtside _ image.directory_aligned (hready.formed.ne_directory hready.root) index index.isLt

/-- The part of the specification that the runs through the tables use. -/
theorem pagingMap_spec {image : PagingImage} {taken : Word → Prop} {start : Machine}
    (hformed : WellFormed image taken start.memory)
    (husable : start.physical.physicalAllocPage.1 ≠ 0 →
      Usable taken start.physical.physicalAllocPage.1) {virtualAddress physicalAddress table : Word}
    (flags : Word) (htable : Aligned virtualAddress → Aligned physicalAddress →
      UsesTable image start virtualAddress → table = tableOf image start virtualAddress) :
    Meets (handle direct) (Touches image table start)
      (pagingMap image virtualAddress physicalAddress flags) start
      (MapOutcome image taken start virtualAddress physicalAddress flags) := by
  have hworks := pagingMap_works hformed husable flags htable
  have htouches := hworks.allow fun _ _ hallowed ↦ hallowed.touches
  exact htouches.mono fun _ _ hboth ↦ hboth.1

/-! ## Unmapping -/

/-- Everything a call of `paging_unmap` can do. -/
inductive UnmapOutcome (image : PagingImage) (taken : Word → Prop) (start : Machine)
    (virtualAddress : Word) : ℤ → Machine → Prop where
  | misaligned : ¬ Aligned virtualAddress → UnmapOutcome image taken start virtualAddress (-1) start
  | absent : Aligned virtualAddress →
      root start.memory image.pageDirectory (directoryPart virtualAddress) = none →
      UnmapOutcome image taken start virtualAddress (-2) start
  | unmapped : Aligned virtualAddress →
      walk start.memory image.pageDirectory virtualAddress = none →
      UnmapOutcome image taken start virtualAddress (-3) start
  | removed {memory : Memory} : Aligned virtualAddress →
      walk start.memory image.pageDirectory virtualAddress ≠ none →
      WellFormed image taken memory →
      walk memory image.pageDirectory virtualAddress = none →
      (∀ other : Word, other.toNat / 4096 ≠ virtualAddress.toNat / 4096 →
        walk memory image.pageDirectory other = walk start.memory image.pageDirectory other) →
      UnmapOutcome image taken start virtualAddress 0 { start with memory := memory }

/-- A call of `paging_unmap` is on its way: mappings are those of the start, or gone. -/
structure Shrinks (image : PagingImage) (start machine : Machine) : Prop where
  cr3 : machine.cr3 = start.cr3
  found : ∀ other, walk machine.memory image.pageDirectory other =
      walk start.memory image.pageDirectory other ∨
    walk machine.memory image.pageDirectory other = none

theorem Shrinks.refl (image : PagingImage) (start : Machine) : Shrinks image start start :=
  ⟨rfl, fun _ ↦ .inl rfl⟩

theorem Shrinks.of_store {image : PagingImage} {start : Machine} {memory : Memory} {address : Word}
    (hnone : walk memory image.pageDirectory address = none)
    (hothers : ∀ other : Word, other.toNat / 4096 ≠ address.toNat / 4096 →
      walk memory image.pageDirectory other = walk start.memory image.pageDirectory other) :
    Shrinks image start { start with memory := memory } := by
  refine ⟨rfl, fun other ↦ ?_⟩
  by_cases hpage : other.toNat / 4096 = address.toNat / 4096
  · exact .inr ((walk_congr_page hpage).trans hnone)
  · exact .inl (hothers other hpage)

theorem pagingUnmap_works {image : PagingImage} {taken : Word → Prop} {start : Machine}
    (hformed : WellFormed image taken start.memory) {virtualAddress table : Word}
    (htable : Aligned virtualAddress →
      root start.memory image.pageDirectory (directoryPart virtualAddress) ≠ none →
        table = tableOf image start virtualAddress) :
    Meets (handle direct)
      (fun machine op ↦ Touches image table start machine op ∧ Shrinks image start machine)
      (pagingUnmap image virtualAddress) start fun result after ↦
        UnmapOutcome image taken start virtualAddress result after ∧
        ∀ index : Fin 1024, after.memory.load32 (entry image.pageDirectory (.ofNat 32 index)) =
          start.memory.load32 (entry image.pageDirectory (.ofNat 32 index)) := by
  unfold pagingUnmap
  by_cases hvirtual : Aligned virtualAddress
  swap
  · rw [if_pos ((not_pageAddressValid_iff _).mpr hvirtual), meets_pure]
    exact ⟨.misaligned hvirtual, fun _ ↦ rfl⟩
  rw [if_neg fun h ↦ (not_pageAddressValid_iff _).mp h hvirtual]
  simp only [meets_bind, meets_load, pageDirectoryIndex_eq, pageTableIndex_eq]
  refine ⟨⟨touches_directory (directoryPart virtualAddress).isLt (.refl image start) rfl,
    .refl image start⟩, ?_⟩
  generalize hentry : start.memory.load32 (entry image.pageDirectory
    (.ofNat 32 (directoryPart virtualAddress))) = directoryEntry
  have hroot := root_of_load hentry
  by_cases hpresent : directoryEntry &&& pagePresent = 0
  · rw [if_pos hpresent, meets_pure]
    exact ⟨.absent hvirtual (hroot.trans (if_pos hpresent)), fun _ ↦ rfl⟩
  replace hroot := hroot.trans (if_neg hpresent)
  have hfound : table = directoryEntry &&& pageAddressMask := by
    rw [htable hvirtual (by simp [hroot]), tableOf, hroot]
    rfl
  have hslot := (tablePart virtualAddress).isLt
  have hwalk : walk start.memory image.pageDirectory virtualAddress =
      slots start.memory (directoryEntry &&& pageAddressMask) (tablePart virtualAddress) :=
    Radix.lookup_of_root hroot _
  rw [if_neg hpresent, hfound]
  simp only [meets_bind, meets_load]
  refine ⟨⟨touches_table hslot (.refl image start) rfl, .refl image start⟩, ?_⟩
  generalize hvalue : start.memory.load32 (entry (physicalToVirtual (directoryEntry &&& pageAddressMask))
    (.ofNat 32 (tablePart virtualAddress))) = value
  replace hwalk := hwalk.trans (slots_of_load hvalue)
  by_cases hmapped : value &&& pagePresent = 0
  · rw [if_pos hmapped, meets_pure]
    exact ⟨.unmapped hvirtual (hwalk.trans (if_pos hmapped)), fun _ ↦ rfl⟩
  · rw [if_neg hmapped]
    simp only [meets_bind, meets_store, meets_pagingInvalidatePage, meets_pure]
    obtain ⟨hsame, hnone, hothers⟩ := hformed.store_entry hroot 0 rfl
    refine ⟨⟨touches_table hslot (.refl image start) rfl, .refl image start⟩,
      ⟨touches_of_no_access rfl, .of_store hnone hothers⟩, ?_⟩
    refine ⟨.removed hvirtual ?_ (hformed.congr_root hsame) hnone hothers, fun index ↦ ?_⟩
    · rw [hwalk.trans (if_neg hmapped)]
      exact Option.some_ne_none value
    · exact sameOutside_store (aligned_of_root hroot) hslot 0 _ image.directory_aligned
        (hformed.ne_directory hroot) index index.isLt

theorem pagingUnmap_spec {image : PagingImage} {taken : Word → Prop} {start : Machine}
    (hformed : WellFormed image taken start.memory) {virtualAddress table : Word}
    (htable : Aligned virtualAddress →
      root start.memory image.pageDirectory (directoryPart virtualAddress) ≠ none →
        table = tableOf image start virtualAddress) :
    Meets (handle direct) (Touches image table start)
      (pagingUnmap image virtualAddress) start (UnmapOutcome image taken start virtualAddress) := by
  have htouches := (pagingUnmap_works hformed htable).allow fun _ _ hallowed ↦ hallowed.1
  exact htouches.mono fun _ _ hboth ↦ hboth.1

/-! ## Initialisation -/

/-- The entry of the identity map. -/
def identityEntry (index : ℕ) : Word := .ofNat 32 index * 4096 ||| pagePresent ||| pageWritable

/-- Accesses happen before paging is switched on. -/
def BeforeEnable (start machine : Machine) (op : PagingOp) : Prop :=
  op.accessed ≠ none → machine.pagingEnabled = start.pagingEnabled

structure Initialized (image : PagingImage) (start after : Machine) : Prop where
  formed : WellFormed image (fun _ ↦ False) after.memory
  physical : after.physical = start.physical
  cr3 : after.cr3 = image.pageDirectory
  pagingEnabled : after.pagingEnabled = true
  absent : ∀ index : Fin 1024, index ≠ 0 → root after.memory image.pageDirectory index = none
  walk : ∀ address, walk after.memory image.pageDirectory address =
    if address.toNat < 0x400000 then some (identityEntry (address.toNat / 4096)) else none

theorem identityEntry_present (index : ℕ) : identityEntry index &&& 1 ≠ 0 := by
  intro hbits
  have hlow := congrArg (fun word ↦ word.getLsbD 0) hbits
  simp [identityEntry, pagePresent, pageWritable] at hlow

/-- The directory after `paging_init`. -/
theorem directory_of_filled {image : PagingImage} {before cleared filled memory : Memory}
    (hcleared : Filled image.pageDirectory (fun _ ↦ 0) 1024 before cleared)
    (hfilled : Filled image.firstPageTable identityEntry 1024 cleared filled)
    (hmemory : memory = filled.store32 (entry image.pageDirectory (.ofNat 32 0))
      (image.firstPageTable ||| pagePresent ||| pageWritable)) (index : Fin 1024) :
    memory.load32 (entry image.pageDirectory (.ofNat 32 index)) =
      if index = 0 then image.firstPageTable ||| 3 else 0 := by
  have hdirectory : Aligned image.pageDirectory := image.directory_aligned
  rw [hmemory, load_store_entry hdirectory hdirectory (by decide) index.isLt]
  by_cases hzero : index = 0
  · rw [if_pos ⟨rfl, congrArg Fin.val hzero⟩, if_pos hzero, BitVec.or_assoc]
    rfl
  · rw [if_neg fun hboth ↦ hzero (Fin.ext hboth.2), if_neg hzero,
      hfilled.outside _ hdirectory image.distinct index index.isLt,
      hcleared.entries index index.isLt]

theorem root_of_filled {image : PagingImage} {memory : Memory}
    (h : ∀ index : Fin 1024, memory.load32 (entry image.pageDirectory (.ofNat 32 index)) =
      if index = 0 then image.firstPageTable ||| 3 else 0) (index : Fin 1024) :
    root memory image.pageDirectory index = if index = 0 then some image.firstPageTable else none := by
  have htable : Aligned image.firstPageTable := image.table_aligned
  rw [root_of_load (h index)]
  by_cases hzero : index = 0
  · rw [if_pos hzero, if_pos hzero, if_neg (or_three_present _), htable.frame_of_or (by decide)]
  · rw [if_neg hzero, if_neg hzero]
    rfl

/-- The first page table after `paging_init`. -/
theorem slots_of_filled {image : PagingImage} {cleared filled memory : Memory} {value : Word}
    (hfilled : Filled image.firstPageTable identityEntry 1024 cleared filled)
    (hmemory : memory = filled.store32 (entry image.pageDirectory (.ofNat 32 0)) value)
    (index : Fin 1024) : slots memory image.firstPageTable index = some (identityEntry index) := by
  have hload : memory.load32 (entry image.firstPageTable (.ofNat 32 index)) = identityEntry index := by
    rw [hmemory, load_store_entry image.directory_aligned image.table_aligned (by decide) index.isLt,
      if_neg fun hboth ↦ image.distinct hboth.1.symm, hfilled.entries index index.isLt]
  rw [slots_of_load hload, if_neg (identityEntry_present index)]

/-- The two filled tables and the last store of `paging_init`. -/
theorem initialized_of_filled {image : PagingImage} {start : Machine} {cleared filled memory : Memory}
    (hcleared : Filled image.pageDirectory (fun _ ↦ 0) 1024 start.memory cleared)
    (hfilled : Filled image.firstPageTable identityEntry 1024 cleared filled)
    (hmemory : memory = filled.store32 (entry image.pageDirectory (.ofNat 32 0))
      (image.firstPageTable ||| pagePresent ||| pageWritable)) :
    Initialized image start
      { start with memory := memory, cr3 := image.pageDirectory, pagingEnabled := true } := by
  have hroot := root_of_filled (directory_of_filled hcleared hfilled hmemory)
  have hslots := slots_of_filled hfilled hmemory
  have hfirst : root memory image.pageDirectory 0 = some image.firstPageTable :=
    (hroot 0).trans (if_pos rfl)
  have hothers (index : Fin 1024) (hne : index ≠ 0) : root memory image.pageDirectory index = none :=
    (hroot index).trans (if_neg hne)
  have honly (index : Fin 1024) (table : Word)
      (h : root memory image.pageDirectory index = some table) : index = 0 := by
    by_contra hne
    rw [hothers index hne] at h
    cases h
  refine ⟨⟨hfirst, ?_, ?_, fun _ hfalse ↦ hfalse.elim⟩, rfl, rfl, rfl, hothers, fun address ↦ ?_⟩
  · intro first second table hone htwo
    rw [honly first table hone, honly second table htwo]
  · intro index table htable
    obtain rfl := honly index table htable
    exact .inl (Option.some.inj (htable.symm.trans hfirst))
  · change walk memory image.pageDirectory address = _
    by_cases hlow : address.toNat < 0x400000
    · have hdirectory : directoryPart address = 0 := by
        apply Fin.ext
        change address.toNat / 2 ^ 22 = 0
        omega
      have hpart : (tablePart address).val = address.toNat / 4096 := by
        change address.toNat / 4096 % 1024 = address.toNat / 4096
        omega
      rw [if_pos hlow, walk, hdirectory, Radix.lookup_of_root hfirst, hslots, hpart]
    · have hdirectory : directoryPart address ≠ 0 := by
        intro hzero
        have hval : address.toNat / 2 ^ 22 = 0 := congrArg Fin.val hzero
        omega
      rw [if_neg hlow, walk, Radix.lookup_of_no_root (hothers _ hdirectory)]

theorem pagingInit_works (image : PagingImage) (start : Machine) :
    Meets (handle direct) (BeforeEnable start) (pagingInit image) start fun _ after ↦
      Initialized image start after ∧ ∀ index : Fin 1024,
        after.memory.load32 (entry image.pageDirectory (.ofNat 32 index)) =
          if index = 0 then image.firstPageTable ||| 3 else 0 := by
  unfold pagingInit
  apply Meets.bind (meets_fill image.directory_aligned (fun _ ↦ 0) start fun _ _ _ _ _ ↦ rfl)
  rintro - after ⟨cleared, rfl, hcleared⟩
  apply Meets.bind (meets_fill image.table_aligned identityEntry _ fun _ _ _ _ _ ↦ rfl)
  rintro - after ⟨filled, rfl, hfilled⟩
  simp only [meets_bind, meets_store, meets_pagingLoadCr3, meets_pagingEnable]
  exact ⟨fun _ ↦ rfl, fun _ ↦ rfl, fun _ ↦ rfl, initialized_of_filled hcleared hfilled rfl,
    directory_of_filled hcleared hfilled rfl⟩

theorem pagingInit_spec (image : PagingImage) (start : Machine) :
    Meets (handle direct) (BeforeEnable start) (pagingInit image) start fun _ after ↦
      Initialized image start after :=
  (pagingInit_works image start).mono fun _ _ hboth ↦ hboth.1

end NeilOS.Paging
