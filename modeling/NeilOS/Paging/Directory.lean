import NeilOS.Paging.Runs

/-!
# The page directory over whole runs

Page-directory entries are written by `paging_init` and, once each, by the `paging_map` call that
creates their page table; nothing removes them. Three things follow over direct access. Every used
frame has exactly one owner: the reservations of `physical_init`, the client, or one directory
entry. A call that does not return 0 leaves tables and allocator alone. And since no directory
entry carries `PAGE_USER`, no page is ever accessible to user code.
-/

namespace NeilOS.Paging

open Foundation Program

/-- The frame of a present directory entry other than the first. -/
def TableFrame (image : PagingImage) (machine : Machine) (table : Word) : Prop :=
  ∃ index, index ≠ 0 ∧ root machine.memory image.pageDirectory index = some table

/-- Present directory entries stay as they are. -/
def KeepsRoots (image : PagingImage) (before after : Machine) : Prop :=
  ∀ index table, root before.memory image.pageDirectory index = some table →
    root after.memory image.pageDirectory index = some table

theorem TableFrame.keep {image : PagingImage} {before after : Machine} {table : Word}
    (h : TableFrame image before table) (hkeeps : KeepsRoots image before after) :
    TableFrame image after table := by
  obtain ⟨index, hindex, hroot⟩ := h
  exact ⟨index, hindex, hkeeps index table hroot⟩

/-- Every frame taken from the allocator has its owner, and every directory entry is a page table
with `PAGE_PRESENT` and `PAGE_WRITABLE`. -/
structure Accounted (image : PagingImage) (system : System) (history : List Physical.Event) : Prop where
  owner : ∀ address, Physical.owned address history = true →
    address ∈ system.owned ∨ TableFrame image system.machine address
  entries : ∀ index table, root system.machine.memory image.pageDirectory index = some table →
    system.machine.memory.load32 (entry image.pageDirectory (.ofNat 32 index)) = table ||| 3

namespace Accounted

variable {image : PagingImage} {system : System} {history : List Physical.Event}
  {taken : Word → Prop} {virtualAddress physicalAddress flags : Word} {result : ℤ} {after : Machine}

theorem init {machine : Machine}
    (h : ∀ index : Fin 1024, machine.memory.load32 (entry image.pageDirectory (.ofNat 32 index)) =
      if index = 0 then image.firstPageTable ||| 3 else 0) :
    Accounted image ⟨machine, []⟩ [] := by
  refine ⟨fun address howned ↦ absurd howned Bool.false_ne_true, fun index table hroot ↦ ?_⟩
  rw [h index]
  rw [root_of_filled h] at hroot
  split at hroot
  · rename_i hzero
    rw [if_pos hzero, Option.some.inj hroot]
  · cases hroot

/-- A call that leaves the directory words and the client's frames alone. -/
theorem of_same_directory (h : Accounted image system history)
    (hsame : ∀ index : Fin 1024, after.memory.load32 (entry image.pageDirectory (.ofNat 32 index)) =
      system.machine.memory.load32 (entry image.pageDirectory (.ofNat 32 index))) :
    Accounted image { system with machine := after } history ∧ KeepsRoots image system.machine after := by
  have hroot (index : Fin 1024) : root after.memory image.pageDirectory index =
      root system.machine.memory image.pageDirectory index := root_of_load (hsame index)
  have hkeeps : KeepsRoots image system.machine after := fun index table htable ↦
    (hroot index).trans htable
  refine ⟨⟨fun address howned ↦ (h.owner address howned).imp_right fun htable ↦ htable.keep hkeeps,
    fun index table htable ↦ ?_⟩, hkeeps⟩
  rw [hsame index]
  exact h.entries index table ((hroot index).symm.trans htable)

theorem root_after {start : Machine}
    (hdirectory : ∀ index : Fin 1024,
      after.memory.load32 (entry image.pageDirectory (.ofNat 32 index)) =
        directoryAfter image start virtualAddress index)
    (hframe : root start.memory image.pageDirectory (directoryPart virtualAddress) = none →
      Aligned start.physical.physicalAllocPage.1) (index : Fin 1024) :
    root after.memory image.pageDirectory index =
      if index = directoryPart virtualAddress ∧ root start.memory image.pageDirectory index = none then
        some start.physical.physicalAllocPage.1
      else root start.memory image.pageDirectory index := by
  rw [root_of_load (hdirectory index), directoryAfter]
  by_cases hnew : index = directoryPart virtualAddress ∧
      root start.memory image.pageDirectory index = none
  · rw [if_pos hnew, if_pos hnew, if_neg (or_three_present _),
      (hframe (hnew.1 ▸ hnew.2)).frame_of_or (by decide)]
  · rw [if_neg hnew, if_neg hnew]
    rfl

/-- A successful `paging_map`: the directory gains at most the entry of the new page table. -/
theorem map (h : Accounted image system history) (hinv : Invariant image system history taken)
    (hout : MapOutcome image taken system.machine virtualAddress physicalAddress flags 0 after)
    (hdirectory : ∀ index : Fin 1024,
      after.memory.load32 (entry image.pageDirectory (.ofNat 32 index)) =
        directoryAfter image system.machine virtualAddress index) {newer : List Physical.Event}
    (howned : ∀ address, Physical.owned address newer = true → Physical.owned address history = true ∨
      (address = system.machine.physical.physicalAllocPage.1 ∧
        root system.machine.memory image.pageDirectory (directoryPart virtualAddress) = none)) :
    Accounted image { system with machine := after } newer ∧ KeepsRoots image system.machine after := by
  have hsome : root system.machine.memory image.pageDirectory (directoryPart virtualAddress) = none →
      system.machine.physical.physicalAllocPage.1 ≠ 0 := by
    cases hout with
    | installed _ _ _ hsome _ _ _ => exact hsome
  have hroot := root_after hdirectory fun habsent ↦ (hinv.next_frame rfl (hsome habsent)).1
  have hkeeps : KeepsRoots image system.machine after := by
    intro index table htable
    rw [hroot index, if_neg, htable]
    rintro ⟨-, habsent⟩
    rw [habsent] at htable
    cases htable
  refine ⟨⟨fun address haddress ↦ ?_, fun index table htable ↦ ?_⟩, hkeeps⟩
  · rcases howned address haddress with hold | ⟨rfl, habsent⟩
    · exact (h.owner address hold).imp_right fun htable ↦ htable.keep hkeeps
    · refine .inr ⟨directoryPart virtualAddress, fun hzero ↦ ?_, ?_⟩
      · rw [hzero, hinv.formed.first] at habsent
        cases habsent
      · exact (hroot _).trans (if_pos ⟨rfl, habsent⟩)
  · change after.memory.load32 _ = _
    change root after.memory image.pageDirectory index = some table at htable
    rw [hroot index] at htable
    rw [hdirectory index, directoryAfter]
    split at htable
    · rename_i hnew
      rw [if_pos hnew, Option.some.inj htable]
    · rename_i hold
      rw [if_neg hold]
      exact h.entries index table htable

end Accounted

/-! ## Steps and runs -/

theorem Invariant.meets_pagingMap {image : PagingImage} {system : System}
    {history : List Physical.Event} {taken : Word → Prop} (h : Invariant image system history taken)
    (virtualAddress physicalAddress flags : Word) :
    Meets (handle direct)
      (Works image (tableOf image system.machine virtualAddress) virtualAddress physicalAddress flags
        system.machine)
      (pagingMap image virtualAddress physicalAddress flags) system.machine fun result after ↦
        MapOutcome image taken system.machine virtualAddress physicalAddress flags result after ∧
        (result = 0 → ∀ index : Fin 1024,
          after.memory.load32 (entry image.pageDirectory (.ofNat 32 index)) =
            directoryAfter image system.machine virtualAddress index) :=
  pagingMap_works h.formed h.usable flags fun _ _ _ ↦ rfl

/-- Both invariants, for some history of the allocator. -/
def Kept (image : PagingImage) (system : System) : Prop :=
  ∃ history taken, Invariant image system history taken ∧ Accounted image system history

theorem Kept.init {image : PagingImage} {system : System} (h : Initial image direct system) :
    Kept image system := by
  obtain ⟨hphysical, -, hexec⟩ := h
  obtain ⟨hinit, hdirectory⟩ := (pagingInit_works image _).of_exec hexec
  exact ⟨[], _, hinit.invariant hphysical, .init hdirectory⟩

/-- A page table was taken from the allocator, so the client neither has it nor gets it. -/
theorem Invariant.tableFrame_owned {image : PagingImage} {system : System}
    {history : List Physical.Event} {taken : Word → Prop} (h : Invariant image system history taken)
    {table : Word} (htable : TableFrame image system.machine table) :
    Physical.owned table history = true ∧ table ∉ system.owned := by
  obtain ⟨index, hindex, hroot⟩ := htable
  have htaken : taken table := by
    apply (h.formed.placed index table hroot).resolve_left
    rintro rfl
    exact hindex (h.formed.unshared _ _ _ hroot h.formed.first)
  exact ⟨h.taken_owned table htaken, fun hmem ↦ h.apart table hmem htaken⟩

theorem Kept.step {image : PagingImage} {before after : System} {event : Event}
    (h : Kept image before) (hstep : Step image direct before event after) :
    Kept image after ∧ KeepsRoots image before.machine after.machine ∧
      ∀ table, TableFrame image before.machine table → event ≠ .alloc table := by
  obtain ⟨history, taken, hinv, hacc⟩ := h
  cases hstep with
  | map hexec =>
    rename_i result machine
    obtain ⟨hout, hdirectory⟩ := (hinv.meets_pagingMap _ _ _).of_exec hexec
    obtain ⟨newer, larger, hnext, howned⟩ := hinv.mapOutcome_owned hout
    by_cases hresult : result = 0
    · subst hresult
      obtain ⟨hafter, hkeeps⟩ := hacc.map hinv hout (hdirectory rfl) fun address haddress ↦
        (howned address haddress).imp_right And.right
      exact ⟨⟨newer, larger, hnext, hafter⟩, hkeeps, fun _ _ ↦ Event.noConfusion⟩
    · rw [hinv.map_failed hout hresult]
      exact ⟨⟨history, taken, hinv, hacc⟩, fun _ _ hroot ↦ hroot, fun _ _ ↦ Event.noConfusion⟩
  | unmap hexec =>
    obtain ⟨hout, hdirectory⟩ := (pagingUnmap_works hinv.formed fun _ _ ↦ rfl).of_exec hexec
    obtain ⟨hafter, hkeeps⟩ := hacc.of_same_directory hdirectory
    exact ⟨⟨history, taken, hinv.unmapOutcome hout, hafter⟩, hkeeps, fun _ _ ↦ Event.noConfusion⟩
  | alloc =>
    refine ⟨⟨_, taken, hinv.alloc, fun address howned ↦ ?_, hacc.entries⟩, fun _ _ hroot ↦ hroot, ?_⟩
    · rw [Physical.owned, Bool.or_eq_true, decide_eq_true_eq] at howned
      rcases howned with ⟨hsome, rfl⟩ | howned
      · refine .inl ?_
        simp only [System.alloc, if_neg hsome]
        exact List.mem_cons_self
      · refine (hacc.owner address howned).imp_left fun hmem ↦ ?_
        simp only [System.alloc]
        split
        · exact hmem
        · exact List.mem_cons_of_mem _ hmem
    · rintro table htable hevent
      injection hevent with hframe
      have howned := (hinv.tableFrame_owned htable).1
      have hhigh := (Physical.heapKept_of_run hinv.run hinv.clean).owned_high table howned
      exact (Physical.invariant_of_run hinv.run).alloc_ne_owned (by bv_omega) howned hframe
  | free hmem =>
    rename_i address
    refine ⟨⟨_, taken, hinv.free hmem, fun other howned ↦ ?_, hacc.entries⟩, fun _ _ hroot ↦ hroot,
      fun _ _ ↦ Event.noConfusion⟩
    rw [Physical.owned, Bool.and_eq_true, decide_eq_true_eq] at howned
    exact (hacc.owner other howned.2).imp_left fun hother ↦
      hinv.nodup.mem_erase_iff.mpr ⟨howned.1.symm, hother⟩

theorem kept_of_reachable {image : PagingImage} {system : System}
    (h : Reachable (Initial image direct) (Step image direct) system) : Kept image system :=
  h.invariant (Kept image) (fun _ hinitial ↦ .init hinitial)
    fun _ _ _ hbefore hstep ↦ (hbefore.step hstep).1

/-- A page table stays one and is not handed out, whatever the calls that follow. -/
theorem Kept.tableFrame_stays {image : PagingImage} {system later : System} {newer : List Event}
    {table : Word} (h : Kept image system) (htable : TableFrame image system.machine table)
    (hrun : Run (· = system) (Step image direct) newer later) :
    Kept image later ∧ TableFrame image later.machine table ∧ .alloc table ∉ newer := by
  apply hrun.induct fun newer later ↦
    Kept image later ∧ TableFrame image later.machine table ∧ .alloc table ∉ newer
  · rintro _ rfl
    exact ⟨h, htable, List.not_mem_nil⟩
  · rintro newer before event after - ⟨hbefore, hframe, hnever⟩ hstep
    obtain ⟨hafter, hkeeps, hne⟩ := hbefore.step hstep
    refine ⟨hafter, hframe.keep hkeeps, fun hmem ↦ ?_⟩
    rcases List.mem_cons.mp hmem with heq | hmem
    · exact hne table hframe heq.symm
    · exact hnever hmem

/-! ## Every used frame has one owner -/

/-- The used pages from 2 MiB on are those taken from the allocator. -/
theorem Invariant.used_iff {image : PagingImage} {system : System} {history : List Physical.Event}
    {taken : Word → Prop} (h : Invariant image system history taken) {page : ℕ} (hpage : page < 16384) :
    system.machine.physical.isUsed page = true ↔
      page < 512 ∨ Physical.owned (.ofNat 32 (page * 4096)) history = true := by
  have hinv := Physical.invariant_of_run h.run
  have hkept := Physical.heapKept_of_run h.run h.clean
  have hnumber := Physical.toNat_pageAddress hpage
  have hfree : page ∈ system.machine.physical.free ↔ system.machine.physical.isUsed page = false :=
    Physical.mem_free.trans (and_iff_right hpage)
  rw [← Bool.not_eq_false, ← hfree]
  constructor
  · intro hused
    by_cases hlow : page < 512
    · exact .inl hlow
    · refine .inr ((hkept.owned_of_frees _ ?_).resolve_left fun hheap ↦ ?_)
      · unfold Physical.Frees
        rw [hnumber, Nat.mul_div_cancel _ (by decide)]
        exact ⟨Nat.mul_mod_left _ _, by omega, hpage, hused⟩
      · have hend := hheap.2.2
        omega
  · rintro (hlow | howned) hmem
    · have hhigh := hkept.high page hmem
      omega
    · have hused := (hinv.owned _ howned).2.2.2
      rw [hnumber, Nat.mul_div_cancel _ (by decide)] at hused
      exact hused hmem

theorem reserved_iff (image : PagingImage) {page : ℕ} (hpage : page < 16384) :
    Physical.Reserved image.toImage (.ofNat 32 (page * 4096)) ↔ page < 512 := by
  have hnumber := Physical.toNat_pageAddress hpage
  constructor
  · intro hreserved
    by_contra hhigh
    exact Physical.not_reserved_of_le (by omega) hreserved
  · intro hlow
    unfold Physical.Reserved Physical.reservedRanges
    rw [hnumber]
    by_cases hheap : page < 256
    · exact ⟨(0, 0x100000), by simp, page * 4096, by omega, by simp only; omega, by omega, by omega⟩
    · exact ⟨(0x100000, 0x200000), by simp, page * 4096, by simp only; omega, by simp only; omega,
        by omega, by omega⟩

/-- No frame is leaked or doubly owned, whatever the order of calls and failures. -/
theorem frames_have_one_owner {image : PagingImage} {history : List Event} {system : System}
    (h : Run (Initial image direct) (Step image direct) history system) :
    root system.machine.memory image.pageDirectory 0 = some image.firstPageTable ∧
    (∀ index table, index ≠ 0 → root system.machine.memory image.pageDirectory index = some table →
      Aligned table ∧ table.toNat / 4096 < 16384 ∧
      system.machine.physical.isUsed (table.toNat / 4096) = true ∧
      (∀ other, root system.machine.memory image.pageDirectory other = some table → other = index) ∧
      table ∉ system.owned ∧ ¬ Physical.Reserved image.toImage table ∧
      ∀ newer later, Run (· = system) (Step image direct) newer later → .alloc table ∉ newer) ∧
    system.owned.Nodup ∧
    (∀ address ∈ system.owned, ¬ Physical.Reserved image.toImage address) ∧
    ∀ page < 16384, system.machine.physical.isUsed page = true ↔
      Physical.Reserved image.toImage (.ofNat 32 (page * 4096)) ∨
      .ofNat 32 (page * 4096) ∈ system.owned ∨
      ∃ index, index ≠ 0 ∧
        root system.machine.memory image.pageDirectory index = some (.ofNat 32 (page * 4096)) := by
  obtain ⟨allocations, taken, hinv, hacc⟩ := kept_of_reachable ⟨history, h⟩
  have hphysical := Physical.invariant_of_run hinv.run
  have hhigh := (Physical.heapKept_of_run hinv.run hinv.clean).owned_high
  refine ⟨hinv.formed.first, ?_, hinv.nodup, ?_, ?_⟩
  · intro index table hindex hroot
    have htable : TableFrame image system.machine table := ⟨index, hindex, hroot⟩
    obtain ⟨howned, hclient⟩ := hinv.tableFrame_owned htable
    obtain ⟨haligned, -, hpage, hused⟩ := hphysical.owned table howned
    refine ⟨haligned, hpage, ?_, fun other hother ↦ hinv.formed.unshared _ _ _ hother hroot, hclient,
      Physical.not_reserved_of_le (hhigh table howned), fun newer later hrun ↦ ?_⟩
    · rw [← Bool.not_eq_false]
      exact fun hclear ↦ hused (Physical.mem_free.mpr ⟨hpage, hclear⟩)
    · exact (Kept.tableFrame_stays ⟨allocations, taken, hinv, hacc⟩ htable hrun).2.2
  · intro address hmem
    exact Physical.not_reserved_of_le (hhigh address (hinv.client_owned address hmem))
  · intro page hpage
    rw [hinv.used_iff hpage, reserved_iff image hpage]
    refine or_congr_right ⟨hacc.owner _, ?_⟩
    rintro (hmem | htable)
    · exact hinv.client_owned _ hmem
    · exact (hinv.tableFrame_owned htable).1

/-- A boot that maps its first page above the identity map. -/
theorem exists_first_mapping (flags : Word) : ∃ system after, Initial smallImage direct system ∧
    exec (handle direct) (pagingMap smallImage 0x400000#32 0x201000#32 flags) system.machine =
      some (0, after) := by
  obtain ⟨machine, hinitial, hinit⟩ := exists_initial
  obtain ⟨history, taken, h⟩ := exists_invariant (.initial hinitial)
  obtain ⟨result, after, hexec, hout, -⟩ := (h.meets_pagingMap 0x400000#32 0x201000#32 flags).exec
  refine ⟨_, after, hinitial, ?_⟩
  rw [hexec, (h.map_refines hout).1]
  have hunmapped : mapping machine 0x400000#32 = none := by
    rw [h.mapping_eq 0x400000#32, hinit.walk, if_neg (by decide)]
    rfl
  rw [mapResult, if_neg (by decide), if_neg (not_not_intro hunmapped),
    if_neg fun hboth ↦ hinit.free_ne_empty hboth.2]

theorem frames_have_one_owner_first_mapping : ∃ system,
    Run (Initial smallImage direct) (Step smallImage direct) [.map 0x400000#32 0x201000#32 2#32 0]
      system ∧ root system.machine.memory 0x1E000#32 0 = some 0x1F000#32 := by
  obtain ⟨system, after, hinitial, hexec⟩ := exists_first_mapping 2#32
  have hrun := (Run.start hinitial).step (Step.map hexec)
  exact ⟨_, hrun, (frames_have_one_owner hrun).1⟩

/-! ## Calls that fail -/

/-- A call that does not return 0 leaves directory, tables and allocator exactly as they were, and
`paging_map` does not find its page mapped after it created the page table. -/
theorem failing_calls_change_nothing {image : PagingImage} {system : System}
    (h : Reachable (Initial image direct) (Step image direct) system) :
    (∀ virtualAddress physicalAddress flags result after,
      exec (handle direct) (pagingMap image virtualAddress physicalAddress flags) system.machine =
        some (result, after) → result ≠ 0 → after = system.machine ∧
      (result = -3 → ∀ event ∈ events (handle direct)
        (pagingMap image virtualAddress physicalAddress flags) system.machine,
          event.2 ≠ .physicalAllocPage)) ∧
    ∀ virtualAddress result after,
      exec (handle direct) (pagingUnmap image virtualAddress) system.machine = some (result, after) →
        result ≠ 0 → after = system.machine := by
  obtain ⟨history, taken, hinv⟩ := exists_invariant h
  constructor
  · intro virtualAddress physicalAddress flags result after hexec hresult
    have hworks := hinv.meets_pagingMap virtualAddress physicalAddress flags
    obtain ⟨hout, -⟩ := hworks.of_exec hexec
    refine ⟨hinv.map_failed hout hresult, ?_⟩
    rintro rfl event hevent hrequest
    have habsent := (hworks.events event hevent).request hrequest
    cases hout with
    | mapped _ _ hmapped => exact hmapped (Radix.lookup_of_no_root habsent _)
  · intro virtualAddress result after hexec hresult
    have hout := (pagingUnmap_spec hinv.formed fun _ _ ↦ rfl).of_exec hexec
    cases hout with
    | misaligned _ => rfl
    | absent _ _ => rfl
    | unmapped _ _ => rfl
    | removed => exact absurd rfl hresult

theorem failing_calls_change_nothing_mapped_twice : ∃ system after,
    Initial smallImage direct system ∧
      exec (handle direct) (pagingMap smallImage 0x5000#32 0x5000#32 2#32) system.machine =
        some (-3, after) ∧ after = system.machine := by
  obtain ⟨machine, hinitial, hinit⟩ := exists_initial
  obtain ⟨history, taken, h⟩ := exists_invariant (.initial hinitial)
  obtain ⟨result, after, hexec, hout, -⟩ := (h.meets_pagingMap 0x5000#32 0x5000#32 2#32).exec
  have hmapped : mapping machine 0x5000#32 ≠ none := by
    rw [h.mapping_eq 0x5000#32, hinit.walk, if_pos (by decide)]
    exact Option.some_ne_none _
  have hresult : result = -3 := by
    rw [(h.map_refines hout).1, mapResult, if_neg (by decide), if_pos hmapped]
  subst hresult
  have hsame := (failing_calls_change_nothing (.initial hinitial)).1 _ _ _ _ _ hexec (by decide)
  exact ⟨_, after, hinitial, hexec, hsame.1⟩

/-! ## Access rights -/

/-- What the processor allows at a page. -/
structure Rights where
  writable : Bool
  user : Bool
deriving DecidableEq

/-- A right needs its flag in the directory entry and in the page-table entry. -/
def bothAllow (flag directoryEntry tableEntry : Word) : Bool :=
  directoryEntry &&& flag != 0 && tableEntry &&& flag != 0

/-- The effective rights of a mapped page. -/
def rights (machine : Machine) (address : Word) : Option Rights :=
  (walk machine.memory (machine.cr3 &&& 0xFFFFF000) address).map fun tableEntry ↦
    let directoryEntry := machine.memory.load32
      (entry (machine.cr3 &&& 0xFFFFF000) (.ofNat 32 (directoryPart address)))
    ⟨bothAllow pageWritable directoryEntry tableEntry, bothAllow pageUser directoryEntry tableEntry⟩

/-- The rights a caller of `paging_map` asks for. -/
def requestedRights (flags : Word) : Rights where
  writable := flags &&& pageWritable != 0
  user := flags &&& pageUser != 0

theorem and_flag_of_offset {value offset flag : Word} (h : value &&& 0xFFF = offset)
    (hflag : 0xFFF &&& flag = flag) : value &&& flag = offset &&& flag := by
  rw [← h, BitVec.and_assoc, hflag]

theorem mappedEntry_flag {physicalAddress flag : Word} (h : Aligned physicalAddress) (flags : Word)
    (hflag : 0xFFF &&& flag = flag) (hother : pagePresent &&& flag = 0) :
    mappedEntry physicalAddress flags &&& flag = flags &&& flag := by
  rw [and_flag_of_offset (mappedEntry_offset h flags) hflag, BitVec.and_or_distrib_right, hother,
    BitVec.and_assoc, hflag]
  exact BitVec.or_zero

/-- Directory entries allow writing and forbid user access. -/
theorem directoryEntry_flags {table : Word} (h : Aligned table) :
    (table ||| 3) &&& pageWritable ≠ 0 ∧ (table ||| 3) &&& pageUser = 0 := by
  have hoffset : (table ||| 3) &&& 0xFFF = 3 := by
    rw [BitVec.and_or_distrib_right, h.and_offset]
    rfl
  rw [and_flag_of_offset hoffset (by decide), and_flag_of_offset hoffset (by decide)]
  exact ⟨by decide, by decide⟩

/-- The rights of a page that `paging_map` has just mapped: user access never comes through. -/
theorem Kept.rights_of_map {image : PagingImage} {system : System} (h : Kept image system)
    {virtualAddress physicalAddress flags : Word} {after : Machine}
    (hexec : exec (handle direct) (pagingMap image virtualAddress physicalAddress flags)
      system.machine = some (0, after)) :
    rights after virtualAddress = some ⟨flags &&& pageWritable != 0, false⟩ := by
  obtain ⟨⟨history, taken, hinv, hacc⟩, -⟩ := h.step (.map hexec)
  obtain ⟨_, _, hbefore, -⟩ := h
  obtain ⟨hout, -⟩ := (hbefore.meets_pagingMap _ _ _).of_exec hexec
  have hdirectory : Aligned image.pageDirectory := image.directory_aligned
  have hcr3 : after.cr3 &&& 0xFFFFF000 = image.pageDirectory := by
    rw [show after.cr3 = image.pageDirectory from hinv.cr3, hdirectory.and_frame]
  cases hout with
  | @installed memory _ hphysical _ _ _ hwalk _ =>
    cases hroot : root memory image.pageDirectory (directoryPart virtualAddress) with
    | none =>
      rw [walk, Radix.lookup_of_no_root hroot] at hwalk
      cases hwalk
    | some table =>
      have hentry : memory.load32 (entry image.pageDirectory
          (.ofNat 32 (directoryPart virtualAddress))) = table ||| 3 := hacc.entries _ table hroot
      obtain ⟨hwrite, huser⟩ := directoryEntry_flags (aligned_of_root hroot)
      rw [rights, hcr3, hwalk, Option.map_some, hentry]
      simp only [bothAllow, huser, bne_self_eq_false, Bool.false_and, bne_iff_ne.mpr hwrite,
        Bool.true_and, mappedEntry_flag hphysical flags (by decide) (by decide : pagePresent &&& pageWritable = 0)]

/-- The rights are the requested ones exactly when no user access was requested. -/
theorem rights_requested_iff {image : PagingImage} {system : System}
    (h : Reachable (Initial image direct) (Step image direct) system)
    {virtualAddress physicalAddress flags : Word} {after : Machine}
    (hexec : exec (handle direct) (pagingMap image virtualAddress physicalAddress flags)
      system.machine = some (0, after)) :
    rights after virtualAddress = some (requestedRights flags) ↔ flags &&& pageUser = 0 := by
  rw [(kept_of_reachable h).rights_of_map hexec, requestedRights, Option.some_inj]
  simp

theorem rights_requested_iff_writable : ∃ system after, Initial smallImage direct system ∧
    exec (handle direct) (pagingMap smallImage 0x400000#32 0x201000#32 2#32) system.machine =
      some (0, after) ∧ rights after 0x400000#32 = some ⟨true, false⟩ := by
  obtain ⟨system, after, hinitial, hexec⟩ := exists_first_mapping 2#32
  exact ⟨system, after, hinitial, hexec,
    (rights_requested_iff (.initial hinitial) hexec).mpr (by decide)⟩

/-- A page mapped for user code is not accessible to it: its directory entry lacks `PAGE_USER`. -/
theorem user_page_not_accessible : ∃ system after, Initial smallImage direct system ∧
    exec (handle direct) (pagingMap smallImage 0x400000#32 0x201000#32 pageUser) system.machine =
      some (0, after) ∧ requestedRights pageUser = ⟨false, true⟩ ∧
    rights after 0x400000#32 = some ⟨false, false⟩ := by
  obtain ⟨system, after, hinitial, hexec⟩ := exists_first_mapping pageUser
  exact ⟨system, after, hinitial, hexec, by decide,
    (kept_of_reachable (.initial hinitial)).rights_of_map hexec⟩

end NeilOS.Paging
