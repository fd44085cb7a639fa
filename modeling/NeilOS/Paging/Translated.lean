import NeilOS.Paging.Runs

/-!
# Paging through its own tables

With paging on, the accesses of `paging.c` go through the tables it maintains. The page directory
lies in the identity-mapped first 4 MiB, but a page table lies wherever the allocator put it, and
`physical_to_virtual` uses its physical address as a virtual one. The accesses are faithful exactly
when that page is identity mapped at the moment of the call.
-/

namespace NeilOS.Paging

open Foundation Program

/-- The operation reaches the physical word its address names. -/
def Faithful (machine : Machine) (op : PagingOp) : Prop :=
  ∀ address, op.accessed = some address → translate machine address = some address

def AllFaithful {α : Type} (program : PagingProgram α) (machine : Machine) : Prop :=
  ∀ event ∈ events (handle translate) program machine, Faithful event.1 event.2

def IdentityMapped (machine : Machine) (page : Word) : Prop :=
  ∃ flags, mapping machine page = some (page, flags)

/-- The page table a call works on lies below 4 MiB, or the client has identity mapped it. -/
def TableMapped (image : PagingImage) (machine : Machine) (address : Word) : Prop :=
  (tableOf image machine address).toNat < 0x400000 ∨
    IdentityMapped machine (tableOf image machine address)

def MapCondition (image : PagingImage) (machine : Machine)
    (virtualAddress physicalAddress : Word) : Prop :=
  Aligned virtualAddress → Aligned physicalAddress → UsesTable image machine virtualAddress →
    TableMapped image machine virtualAddress

def UnmapCondition (image : PagingImage) (machine : Machine) (virtualAddress : Word) : Prop :=
  Aligned virtualAddress →
    root machine.memory image.pageDirectory (directoryPart virtualAddress) ≠ none →
      TableMapped image machine virtualAddress

/-- Calls for virtual addresses from 4 MiB on that meet their condition; the allocator's own calls
touch no page table. -/
def Guarded (image : PagingImage) (machine : Machine) : Event → Prop
  | .map virtualAddress physicalAddress _ _ => 0x400000 ≤ virtualAddress.toNat ∧
      MapCondition image machine virtualAddress physicalAddress
  | .unmap virtualAddress _ => 0x400000 ≤ virtualAddress.toNat ∧
      UnmapCondition image machine virtualAddress
  | _ => True

def GuardedStep (image : PagingImage) (before : System) (event : Event) (after : System) : Prop :=
  Step image translate before event after ∧ Guarded image before.machine event

/-! ## Faithful accesses -/

theorem Aligned.entry_page {table : Word} (h : Aligned table) {index : ℕ} (hindex : index < 1024) :
    (entry table (.ofNat 32 index)).toNat / 4096 = table.toNat / 4096 := by
  rw [h.toNat_entry hindex]
  unfold Aligned at h
  omega

theorem Aligned.entry_frame {table : Word} (h : Aligned table) {index : ℕ} (hindex : index < 1024) :
    entry table (.ofNat 32 index) &&& 0xFFFFF000 = table := by
  apply BitVec.eq_of_toNat_eq
  rw [toNat_and_frame, h.entry_page hindex]
  exact Nat.div_mul_cancel (Nat.dvd_of_mod_eq_zero h)

theorem mapping_congr_page {machine : Machine} {first second : Word}
    (h : first.toNat / 4096 = second.toNat / 4096) : mapping machine first = mapping machine second := by
  rw [mapping, mapping, walk_congr_page h]

theorem IdentityMapped.translate_entry {machine : Machine} {table : Word}
    (h : IdentityMapped machine table) (haligned : Aligned table)
    (henabled : machine.pagingEnabled = true) {index : ℕ} (hindex : index < 1024) :
    translate machine (entry table (.ofNat 32 index)) = some (entry table (.ofNat 32 index)) := by
  obtain ⟨flags, hmapping⟩ := h
  rw [translate_eq_mapping henabled, mapping_congr_page (haligned.entry_page hindex), hmapping,
    Option.map_some]
  have hparts := frame_or_offset (entry table (.ofNat 32 index))
  rw [haligned.entry_frame hindex] at hparts
  rw [hparts]

/-- Conversely one faithful access to a table shows its page identity mapped. -/
theorem identityMapped_of_translate_entry {machine : Machine} {table : Word}
    (haligned : Aligned table) (henabled : machine.pagingEnabled = true) {index : ℕ}
    (hindex : index < 1024)
    (h : translate machine (entry table (.ofNat 32 index)) = some (entry table (.ofNat 32 index))) :
    IdentityMapped machine table := by
  rw [translate_eq_mapping henabled, mapping_congr_page (haligned.entry_page hindex),
    Option.map_eq_some_iff] at h
  obtain ⟨⟨frame, flags⟩, hmapping, haddress⟩ := h
  have hframe : Aligned frame := by
    rw [mapping, Option.map_eq_some_iff] at hmapping
    obtain ⟨value, -, hvalue⟩ := hmapping
    rw [← (Prod.mk.inj hvalue).1]
    exact aligned_and_frame value
  have hoffset : (entry table (.ofNat 32 index) &&& 0xFFF) &&& 0xFFFFF000 = 0 := by
    rw [BitVec.and_assoc]
    exact BitVec.and_zero
  have hsame : frame = table := by
    calc
      frame = (frame ||| (entry table (.ofNat 32 index) &&& 0xFFF)) &&& 0xFFFFF000 :=
        (hframe.frame_of_or hoffset).symm
      _ = entry table (.ofNat 32 index) &&& 0xFFFFF000 := congrArg (· &&& 0xFFFFF000) haddress
      _ = table := haligned.entry_frame hindex
  rw [hsame] at hmapping
  exact ⟨flags, hmapping⟩

/-- The invariant of guarded runs: the first 4 MiB stay identity mapped. -/
structure LowMapped (image : PagingImage) (system : System) (history : List Physical.Event)
    (taken : Word → Prop) : Prop extends Invariant image system history taken where
  low : ∀ page : Word, Aligned page → page.toNat < 0x400000 → IdentityMapped system.machine page

theorem Keeps.identityMapped {image : PagingImage} {start machine : Machine}
    (h : Keeps image start machine) (hcr3 : start.cr3 = image.pageDirectory) {page : Word}
    (hpage : IdentityMapped start page) : IdentityMapped machine page := by
  have hdirectory : Aligned image.pageDirectory := image.directory_aligned
  obtain ⟨flags, hmapping⟩ := hpage
  rw [mapping, hcr3, hdirectory.and_frame, Option.map_eq_some_iff] at hmapping
  obtain ⟨value, hwalk, hvalue⟩ := hmapping
  refine ⟨flags, ?_⟩
  rw [mapping, h.cr3, hcr3, hdirectory.and_frame, h.mapped page value hwalk, Option.map_some, hvalue]

/-- Accesses to the directory and to an identity-mapped table are faithful. -/
theorem Touches.faithful {image : PagingImage} {table : Word} {start machine : Machine}
    {op : PagingOp} (h : Touches image table start machine op)
    (hcr3 : start.cr3 = image.pageDirectory) (henabled : start.pagingEnabled = true)
    (hdirectory : IdentityMapped start image.pageDirectory) (haligned : Aligned table)
    (htable : IdentityMapped start table) : Faithful machine op := by
  intro address haddress
  obtain ⟨hkeeps, index, hindex, rfl | rfl⟩ := h address haddress
  · exact (hkeeps.identityMapped hcr3 hdirectory).translate_entry image.directory_aligned
      (hkeeps.pagingEnabled.trans henabled) hindex
  · exact (hkeeps.identityMapped hcr3 htable).translate_entry haligned
      (hkeeps.pagingEnabled.trans henabled) hindex

theorem handle_translate_of_faithful {machine : Machine} {op : PagingOp} (h : Faithful machine op) :
    handle translate op machine = handle direct op machine := by
  cases op with
  | load address => simp [handle, direct, h address rfl]
  | store address value => simp [handle, direct, h address rfl]
  | invlpg _ => rfl
  | loadCr3 _ => rfl
  | enablePaging => rfl
  | physicalAllocPage => rfl
  | fvgaWrite _ _ => rfl

/-- A run whose accesses are faithful is the run without paging. -/
theorem exec_direct_of_faithful {α : Type} {program : PagingProgram α} {machine after : Machine}
    {value : α} {post : α → Machine → Prop}
    (h : Meets (handle translate) Faithful program machine post)
    (hexec : exec (handle translate) program machine = some (value, after)) :
    exec (handle direct) program machine = some (value, after) := by
  have hdirect := h.with_exec.transfer fun _ _ hfaithful ↦
    (handle_translate_of_faithful hfaithful).symm
  obtain ⟨other, last, hother, -, hsame⟩ := hdirect.exec
  rw [hother, ← hsame, hexec]

/-! ## Calls that meet their condition -/

namespace LowMapped

variable {image : PagingImage} {system : System} {history : List Physical.Event}
  {taken : Word → Prop}

theorem directory_mapped (h : LowMapped image system history taken) :
    IdentityMapped system.machine image.pageDirectory := by
  have hle := image.directory_le
  have hend := image.le_stack
  exact h.low _ image.directory_aligned (by omega)

theorem aligned_tableOf (h : LowMapped image system history taken) {address : Word}
    (huses : UsesTable image system.machine address) :
    Aligned (tableOf image system.machine address) := by
  unfold tableOf
  cases hroot : root system.machine.memory image.pageDirectory (directoryPart address) with
  | some table => exact aligned_of_root hroot
  | none => exact (h.usable (huses.resolve_left (not_not_intro hroot))).aligned

theorem tableMapped_iff (h : LowMapped image system history taken) {address : Word}
    (huses : UsesTable image system.machine address) :
    TableMapped image system.machine address ↔
      IdentityMapped system.machine (tableOf image system.machine address) := by
  constructor
  · rintro (hlow | hmapped)
    · exact h.low _ (h.aligned_tableOf huses) hlow
    · exact hmapped
  · exact .inr

/-- Specifications over direct access carry over once directory and table are identity mapped. -/
theorem meets_translate (h : LowMapped image system history taken) {α : Type}
    {program : PagingProgram α} {table : Word} {post : α → Machine → Prop} (haligned : Aligned table)
    (htable : IdentityMapped system.machine table)
    (hspec : Meets (handle direct) (Touches image table system.machine) program system.machine post) :
    Meets (handle translate) Faithful program system.machine post := by
  have hfaithful := hspec.allow fun machine op htouches ↦
    htouches.faithful h.cr3 h.pagingEnabled h.directory_mapped haligned htable
  exact hfaithful.transfer fun machine op hop ↦ handle_translate_of_faithful hop

theorem meets_pagingMap (h : LowMapped image system history taken)
    {virtualAddress physicalAddress : Word} (flags : Word)
    (hcondition : MapCondition image system.machine virtualAddress physicalAddress) :
    Meets (handle translate) Faithful (pagingMap image virtualAddress physicalAddress flags)
      system.machine
      (MapOutcome image taken system.machine virtualAddress physicalAddress flags) := by
  by_cases huses : Aligned virtualAddress ∧ Aligned physicalAddress ∧
      UsesTable image system.machine virtualAddress
  · have htable := (h.tableMapped_iff huses.2.2).mp (hcondition huses.1 huses.2.1 huses.2.2)
    exact h.meets_translate (h.aligned_tableOf huses.2.2) htable
      (pagingMap_spec h.formed h.usable flags fun _ _ _ ↦ rfl)
  -- A call that does not reach its page table accesses the directory only.
  · exact h.meets_translate image.directory_aligned h.directory_mapped
      (pagingMap_spec h.formed h.usable flags fun hvirtual hphysical htable ↦
        absurd ⟨hvirtual, hphysical, htable⟩ huses)

theorem meets_pagingUnmap (h : LowMapped image system history taken) {virtualAddress : Word}
    (hcondition : UnmapCondition image system.machine virtualAddress) :
    Meets (handle translate) Faithful (pagingUnmap image virtualAddress) system.machine
      (UnmapOutcome image taken system.machine virtualAddress) := by
  by_cases huses : Aligned virtualAddress ∧
      root system.machine.memory image.pageDirectory (directoryPart virtualAddress) ≠ none
  · have htable := (h.tableMapped_iff (.inl huses.2)).mp (hcondition huses.1 huses.2)
    exact h.meets_translate (h.aligned_tableOf (.inl huses.2)) htable
      (pagingUnmap_spec h.formed fun _ _ ↦ rfl)
  · exact h.meets_translate image.directory_aligned h.directory_mapped
      (pagingUnmap_spec h.formed fun hvirtual hpresent ↦ absurd ⟨hvirtual, hpresent⟩ huses)

/-- A guarded call does what it would do without paging. -/
theorem direct_step (h : LowMapped image system history taken) {event : Event} {after : System}
    (hstep : GuardedStep image system event after) : Step image direct system event after := by
  obtain ⟨hstep, hguard⟩ := hstep
  cases hstep with
  | map hexec => exact .map (exec_direct_of_faithful (h.meets_pagingMap _ hguard.2) hexec)
  | unmap hexec => exact .unmap (exec_direct_of_faithful (h.meets_pagingUnmap hguard.2) hexec)
  | alloc => exact .alloc system
  | free hmem => exact .free hmem

/-- A change at one page from 4 MiB on keeps the first 4 MiB. -/
theorem low_of_update (h : LowMapped image system history taken) {after : Machine}
    {virtualAddress : Word} (hvirtual : 0x400000 ≤ virtualAddress.toNat)
    (hsame : ∀ other : Word, other.toNat / 4096 ≠ virtualAddress.toNat / 4096 →
      mapping after other = mapping system.machine other) (page : Word) (haligned : Aligned page)
    (hpage : page.toNat < 0x400000) : IdentityMapped after page := by
  obtain ⟨flags, hmapping⟩ := h.low page haligned hpage
  exact ⟨flags, (hsame page (by omega)).trans hmapping⟩

theorem step (h : LowMapped image system history taken) {event : Event} {after : System}
    (hstep : GuardedStep image system event after) :
    ∃ history taken, LowMapped image after history taken := by
  obtain ⟨hstep, hguard⟩ := hstep
  cases hstep with
  | map hexec =>
    have hout := (h.meets_pagingMap _ hguard.2).of_exec hexec
    obtain ⟨next, nextTaken, hnext⟩ := h.toInvariant.mapOutcome hout
    refine ⟨next, nextTaken, hnext, h.low_of_update hguard.1 fun other hpage ↦ ?_⟩
    rw [(h.map_refines hout).2.2 other, if_neg fun hboth ↦ hpage hboth.2]
  | unmap hexec =>
    have hout := (h.meets_pagingUnmap hguard.2).of_exec hexec
    refine ⟨history, taken, h.unmapOutcome hout, h.low_of_update hguard.1 fun other hpage ↦ ?_⟩
    rw [(h.unmap_refines hout).2.2 other, if_neg fun hboth ↦ hpage hboth.2]
  | alloc => exact ⟨_, taken, h.alloc, h.low⟩
  | free hmem => exact ⟨_, taken, h.free hmem, h.low⟩

end LowMapped

theorem Initialized.lowMapped {image : PagingImage} {before after : Machine}
    (hphysical : Physical.Initial image.toImage before.physical) (h : Initialized image before after) :
    LowMapped image ⟨after, []⟩ [] (fun _ ↦ False) := by
  refine ⟨h.invariant hphysical, fun page haligned hpage ↦ ⟨3, ?_⟩⟩
  rw [(h.invariant hphysical).mapping_eq, h.walk, if_pos hpage, Option.map_some, identityEntry_parts,
    haligned.and_frame]

theorem pagingInit_translate_spec (image : PagingImage) {before : Machine}
    (hdisabled : before.pagingEnabled = false) :
    Meets (handle translate) (BeforeEnable before) (pagingInit image) before
      fun _ after ↦ Initialized image before after := by
  apply (pagingInit_spec image before).transfer
  intro machine op hbefore
  apply handle_translate_of_faithful
  intro address haddress
  have hoff : machine.pagingEnabled = false := (hbefore (by simp [haddress])).trans hdisabled
  simp [translate, hoff]

theorem exists_lowMapped {image : PagingImage} {system : System}
    (h : Reachable (Initial image translate) (GuardedStep image) system) :
    ∃ history taken, LowMapped image system history taken := by
  apply h.invariant fun system ↦ ∃ history taken, LowMapped image system history taken
  · rintro system ⟨hphysical, hdisabled, hexec⟩
    exact ⟨[], _, ((pagingInit_translate_spec image hdisabled).of_exec hexec).lowMapped hphysical⟩
  · rintro before event after ⟨history, taken, hbefore⟩ hstep
    exact hbefore.step hstep

/-- An access to the table `table` while the mappings are those of `start`. -/
structure Reaches (start : Machine) (table : Word) (event : Machine × PagingOp) : Prop where
  address : ∃ index < 1024, event.2.accessed = some (entry table (.ofNat 32 index))
  mapping : mapping event.1 = mapping start
  pagingEnabled : event.1.pagingEnabled = start.pagingEnabled

theorem Reaches.identityMapped {start : Machine} {table : Word} {event : Machine × PagingOp}
    (h : Reaches start table event) (haligned : Aligned table) (henabled : start.pagingEnabled = true)
    (hfaithful : Faithful event.1 event.2) : IdentityMapped start table := by
  obtain ⟨index, hindex, haccess⟩ := h.address
  have hpage := identityMapped_of_translate_entry haligned (h.pagingEnabled.trans henabled) hindex
    (hfaithful _ haccess)
  unfold IdentityMapped at hpage ⊢
  rwa [h.mapping] at hpage

namespace LowMapped

variable {image : PagingImage} {system : System} {history : List Physical.Event}
  {taken : Word → Prop}

theorem exec_load_directory (h : LowMapped image system history taken) (address : Word) :
    exec (handle translate) (load (entry image.pageDirectory (pageDirectoryIndex address)))
        system.machine =
      some (system.machine.memory.load32 (entry image.pageDirectory
        (.ofNat 32 (directoryPart address))), system.machine) := by
  have hresolve := h.directory_mapped.translate_entry image.directory_aligned h.pagingEnabled
    (directoryPart address).isLt
  rw [pageDirectoryIndex_eq]
  simp [load, exec, handle, hresolve]

/-- An aligned call of `paging_map` comes to look for its page table. -/
theorem mem_events_pagingMap (h : LowMapped image system history taken)
    {virtualAddress physicalAddress directoryEntry : Word} {flags : Word}
    (hvirtual : Aligned virtualAddress) (hphysical : Aligned physicalAddress)
    (hentry : system.machine.memory.load32 (entry image.pageDirectory
      (.ofNat 32 (directoryPart virtualAddress))) = directoryEntry) {event : Machine × PagingOp}
    (hevent : event ∈ events (handle translate)
      (pagingMapTable image (pageDirectoryIndex virtualAddress) directoryEntry >>= fun found ↦
        match found with
        | none => pure (-2)
        | some pageTable => pagingMapInstall pageTable (pageTableIndex virtualAddress) virtualAddress
            physicalAddress flags) system.machine) :
    event ∈ events (handle translate) (pagingMap image virtualAddress physicalAddress flags)
      system.machine := by
  have hload := h.exec_load_directory virtualAddress
  rw [hentry] at hload
  unfold pagingMap
  apply mem_events_bind_right rfl
  apply mem_events_bind_right rfl
  rw [if_neg fun h ↦ (not_pageAddressValid_iff _).mp h hvirtual,
    if_neg fun h ↦ (not_pageAddressValid_iff _).mp h hphysical,
    if_neg (by simp [(pageAddressValid_iff _).mpr hvirtual, (pageAddressValid_iff _).mpr hphysical])]
  exact mem_events_bind_right hload hevent

/-- The first access of `paging_map` to its page table. -/
theorem exists_reaches_pagingMap (h : LowMapped image system history taken)
    {virtualAddress physicalAddress : Word} (flags : Word) (hvirtual : Aligned virtualAddress)
    (hphysical : Aligned physicalAddress) (huses : UsesTable image system.machine virtualAddress) :
    ∃ event ∈ events (handle translate) (pagingMap image virtualAddress physicalAddress flags)
        system.machine,
      Reaches system.machine (tableOf image system.machine virtualAddress) event := by
  generalize hentry : system.machine.memory.load32 (entry image.pageDirectory
    (.ofNat 32 (directoryPart virtualAddress))) = directoryEntry
  have hroot := root_of_load hentry
  by_cases hpresent : directoryEntry &&& pagePresent = 0
  · replace hroot := hroot.trans (if_pos hpresent)
    have htable : tableOf image system.machine virtualAddress =
        system.machine.physical.physicalAllocPage.1 := by
      rw [tableOf, hroot]
      rfl
    refine ⟨({ system.machine with physical := system.machine.physical.physicalAllocPage.2 },
      .store (entry system.machine.physical.physicalAllocPage.1 (.ofNat 32 0)) 0),
      h.mem_events_pagingMap hvirtual hphysical hentry ?_, ⟨0, by decide, by rw [htable]; rfl⟩, rfl, rfl⟩
    rw [pagingMapTable, if_pos hpresent]
    apply mem_events_bind_left
    apply mem_events_bind_left
    apply mem_events_bind_right rfl
    rw [if_neg (huses.resolve_left (not_not_intro hroot))]
    apply mem_events_bind_left
    exact mem_events_forRange List.mem_cons_self
  · replace hroot := hroot.trans (if_neg hpresent)
    have htable : tableOf image system.machine virtualAddress = directoryEntry &&& pageAddressMask := by
      rw [tableOf, hroot]
      rfl
    have hslot := pageTableIndex_eq virtualAddress
    refine ⟨(system.machine, .load (entry (directoryEntry &&& pageAddressMask)
      (pageTableIndex virtualAddress))), h.mem_events_pagingMap hvirtual hphysical hentry ?_,
      ⟨tablePart virtualAddress, (tablePart virtualAddress).isLt, by rw [htable, hslot]; rfl⟩, rfl, rfl⟩
    rw [pagingMapTable, if_neg hpresent]
    apply mem_events_bind_right rfl
    apply mem_events_bind_left
    exact List.mem_cons_self

/-- The first access of `paging_unmap` to its page table. -/
theorem exists_reaches_pagingUnmap (h : LowMapped image system history taken) {virtualAddress : Word}
    (hvirtual : Aligned virtualAddress)
    (hpresent : root system.machine.memory image.pageDirectory (directoryPart virtualAddress) ≠ none) :
    ∃ event ∈ events (handle translate) (pagingUnmap image virtualAddress) system.machine,
      Reaches system.machine (tableOf image system.machine virtualAddress) event := by
  have hload := h.exec_load_directory virtualAddress
  generalize hentry : system.machine.memory.load32 (entry image.pageDirectory
    (.ofNat 32 (directoryPart virtualAddress))) = directoryEntry at hload
  have hbit : ¬ directoryEntry &&& pagePresent = 0 := by
    intro habsent
    exact hpresent ((root_of_load hentry).trans (if_pos habsent))
  have htable : tableOf image system.machine virtualAddress = directoryEntry &&& pageAddressMask := by
    rw [tableOf, (root_of_load hentry).trans (if_neg hbit)]
    rfl
  have hslot := pageTableIndex_eq virtualAddress
  refine ⟨(system.machine, .load (entry (directoryEntry &&& pageAddressMask)
    (pageTableIndex virtualAddress))), ?_,
    ⟨tablePart virtualAddress, (tablePart virtualAddress).isLt, by rw [htable, hslot]; rfl⟩, rfl, rfl⟩
  rw [pagingUnmap, if_neg fun h ↦ (not_pageAddressValid_iff _).mp h hvirtual]
  apply mem_events_bind_right hload
  rw [if_neg hbit]
  apply mem_events_bind_left
  exact List.mem_cons_self

theorem allFaithful_pagingMap_iff (h : LowMapped image system history taken)
    (virtualAddress physicalAddress flags : Word) :
    AllFaithful (pagingMap image virtualAddress physicalAddress flags) system.machine ↔
      MapCondition image system.machine virtualAddress physicalAddress := by
  constructor
  · intro hfaithful hvirtual hphysical huses
    obtain ⟨event, hevent, hreaches⟩ := h.exists_reaches_pagingMap flags hvirtual hphysical huses
    exact .inr (hreaches.identityMapped (h.aligned_tableOf huses) h.pagingEnabled
      (hfaithful event hevent))
  · intro hcondition
    exact (h.meets_pagingMap flags hcondition).events

theorem allFaithful_pagingUnmap_iff (h : LowMapped image system history taken)
    (virtualAddress : Word) : AllFaithful (pagingUnmap image virtualAddress) system.machine ↔
      UnmapCondition image system.machine virtualAddress := by
  constructor
  · intro hfaithful hvirtual hpresent
    obtain ⟨event, hevent, hreaches⟩ := h.exists_reaches_pagingUnmap hvirtual hpresent
    exact .inr (hreaches.identityMapped (h.aligned_tableOf (.inl hpresent)) h.pagingEnabled
      (hfaithful event hevent))
  · intro hcondition
    exact (h.meets_pagingUnmap hcondition).events

end LowMapped

/-- In every run whose calls meet their condition, the next call is faithful exactly when it meets
its condition too, and then it returns. -/
theorem table_accesses_faithful_iff {image : PagingImage} {system : System}
    (h : Reachable (Initial image translate) (GuardedStep image) system) :
    (∀ virtualAddress physicalAddress flags,
      (AllFaithful (pagingMap image virtualAddress physicalAddress flags) system.machine ↔
        MapCondition image system.machine virtualAddress physicalAddress) ∧
      (MapCondition image system.machine virtualAddress physicalAddress → ∃ result after,
        exec (handle translate) (pagingMap image virtualAddress physicalAddress flags)
          system.machine = some (result, after))) ∧
    ∀ virtualAddress,
      (AllFaithful (pagingUnmap image virtualAddress) system.machine ↔
        UnmapCondition image system.machine virtualAddress) ∧
      (UnmapCondition image system.machine virtualAddress → ∃ result after,
        exec (handle translate) (pagingUnmap image virtualAddress) system.machine =
          some (result, after)) := by
  obtain ⟨history, taken, hlow⟩ := exists_lowMapped h
  constructor
  · intro virtualAddress physicalAddress flags
    refine ⟨hlow.allFaithful_pagingMap_iff virtualAddress physicalAddress flags, fun hcondition ↦ ?_⟩
    obtain ⟨result, after, hexec, -⟩ := (hlow.meets_pagingMap flags hcondition).exec
    exact ⟨result, after, hexec⟩
  · intro virtualAddress
    refine ⟨hlow.allFaithful_pagingUnmap_iff virtualAddress, fun hcondition ↦ ?_⟩
    obtain ⟨result, after, hexec, -⟩ := (hlow.meets_pagingUnmap hcondition).exec
    exact ⟨result, after, hexec⟩

/-- After any number of allocations up to 512 the tables are still those of `paging_init`. -/
theorem exists_reachable_after_allocations (image : PagingImage) {count : ℕ} (hcount : count ≤ 512) :
    ∃ boot system, Initialized image (bootMachine image) boot ∧
      Reachable (Initial image translate) (GuardedStep image) system ∧
      system.machine.memory = boot.memory ∧
      system.machine.physical.free = Finset.Ico (512 + count) 16384 := by
  induction count with
  | zero =>
    obtain ⟨⟨⟩, boot, hexec, hinit⟩ :=
      (pagingInit_translate_spec image (rfl : (bootMachine image).pagingEnabled = false)).exec
    refine ⟨boot, ⟨boot, []⟩, hinit, .initial (.init ⟨_, rfl⟩ rfl hexec), rfl, ?_⟩
    change boot.physical.free = _
    rw [hinit.physical]
    exact (Physical.physicalInit_spec _ _).1
  | succ count ih =>
    obtain ⟨boot, system, hinit, hreachable, hmemory, hfree⟩ := ih (by omega)
    obtain ⟨history, taken, hlow⟩ := exists_lowMapped hreachable
    have halloc := (Physical.invariant_of_run hlow.run).alloc_eq_of_least (512 + count)
      (by rw [hfree, Finset.mem_Ico]; omega)
      (by intro other hother; rw [hfree, Finset.mem_Ico] at hother; exact hother.1)
    refine ⟨boot, system.alloc, hinit, hreachable.step ⟨.alloc system, trivial⟩, hmemory, ?_⟩
    change system.machine.physical.physicalAllocPage.2.free = _
    rw [halloc, Physical.free_take, hfree]
    ext page
    rw [Finset.mem_erase, Finset.mem_Ico, Finset.mem_Ico]
    omega

theorem table_accesses_faithful_iff_first_mapping :
    ∃ system, Reachable (Initial smallImage translate) (GuardedStep smallImage) system ∧
      AllFaithful (pagingMap smallImage 0x400000#32 0x201000#32 2#32) system.machine := by
  obtain ⟨boot, system, hinit, hreachable, hmemory, hfree⟩ :=
    exists_reachable_after_allocations smallImage (Nat.zero_le 512)
  obtain ⟨history, taken, hlow⟩ := exists_lowMapped hreachable
  refine ⟨system, hreachable, ((table_accesses_faithful_iff hreachable).1 _ _ _).1.mpr ?_⟩
  intro _ _ _
  have halloc := (Physical.invariant_of_run hlow.run).alloc_eq_of_least 512
    (by rw [hfree, Finset.mem_Ico]; omega)
    (by intro other hother; rw [hfree, Finset.mem_Ico] at hother; omega)
  have habsent : root system.machine.memory smallImage.pageDirectory (directoryPart 0x400000#32) = none := by
    rw [hmemory]
    exact hinit.absent _ (by decide)
  left
  rw [tableOf, habsent, halloc]
  change (BitVec.ofNat 32 (512 * 4096)).toNat < 0x400000
  decide

/-- After 512 allocations the next page table lies at 4 MiB, where nothing is mapped. -/
theorem page_table_above_identity_map :
    ∃ system, Reachable (Initial smallImage translate) (GuardedStep smallImage) system ∧
      ¬ AllFaithful (pagingMap smallImage 0x400000#32 0x200000#32 2#32) system.machine := by
  obtain ⟨boot, system, hinit, hreachable, hmemory, hfree⟩ :=
    exists_reachable_after_allocations smallImage (le_refl 512)
  obtain ⟨history, taken, hlow⟩ := exists_lowMapped hreachable
  have halloc := (Physical.invariant_of_run hlow.run).alloc_eq_of_least 1024
    (by rw [hfree, Finset.mem_Ico]; omega)
    (by intro other hother; rw [hfree, Finset.mem_Ico] at hother; exact hother.1)
  have habsent : root system.machine.memory smallImage.pageDirectory (directoryPart 0x400000#32) = none := by
    rw [hmemory]
    exact hinit.absent _ (by decide)
  have htable : tableOf smallImage system.machine 0x400000#32 = 0x400000#32 := by
    rw [tableOf, habsent, halloc]
    rfl
  refine ⟨system, hreachable, fun hfaithful ↦ ?_⟩
  have hcondition := (hlow.allFaithful_pagingMap_iff _ _ _).mp hfaithful (by decide) (by decide)
    (.inr (by rw [halloc]; exact Physical.pageAddress_ne_zero (by decide) (by decide)))
  rw [TableMapped, htable] at hcondition
  rcases hcondition with hbelow | ⟨flags, hmapped⟩
  · exact absurd hbelow (by decide)
  · rw [hlow.mapping_eq, hmemory, hinit.walk, if_neg (by decide)] at hmapped
    cases hmapped

end NeilOS.Paging
