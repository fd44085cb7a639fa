import NeilOS.Paging.Spec
import NeilOS.Physical.Runs

/-!
# Runs of the paging functions

A client interleaves `paging_map`, `paging_unmap`, `physical_alloc_page` and `physical_free_page`,
freeing only what it was handed and has not freed since. The invariant hangs on the run of the
physical allocator underneath: page tables and client frames are owned in its history, and they
are different frames, so no client free can take a page table away.
-/

namespace NeilOS.Paging

open Foundation Program

structure System where
  machine : Machine
  /-- The frames handed to the client and not freed since. -/
  owned : List Word

inductive Event where
  | map (virtualAddress physicalAddress flags : Word) (result : ℤ)
  | unmap (virtualAddress : Word) (result : ℤ)
  | alloc (result : Word)
  | free (address : Word)

/-- `physical_init`, then `paging_init`. -/
inductive Initial (image : PagingImage) (resolve : Machine → Word → Option Word) : System → Prop where
  | init {before after : Machine} : Physical.Initial image.toImage before.physical →
      before.pagingEnabled = false →
      exec (handle resolve) (pagingInit image) before = some ((), after) →
      Initial image resolve ⟨after, []⟩

def System.alloc (system : System) : System where
  machine := { system.machine with physical := system.machine.physical.physicalAllocPage.2 }
  owned :=
    if system.machine.physical.physicalAllocPage.1 = 0 then system.owned
    else system.machine.physical.physicalAllocPage.1 :: system.owned

def System.free (address : Word) (system : System) : System where
  machine :=
    { system.machine with physical := Physical.physicalFreePage address system.machine.physical }
  owned := system.owned.erase address

inductive Step (image : PagingImage) (resolve : Machine → Word → Option Word) :
    System → Event → System → Prop where
  | map {system : System} {virtualAddress physicalAddress flags : Word} {result : ℤ}
      {after : Machine} :
      exec (handle resolve) (pagingMap image virtualAddress physicalAddress flags) system.machine =
        some (result, after) →
      Step image resolve system (.map virtualAddress physicalAddress flags result)
        { system with machine := after }
  | unmap {system : System} {virtualAddress : Word} {result : ℤ} {after : Machine} :
      exec (handle resolve) (pagingUnmap image virtualAddress) system.machine =
        some (result, after) →
      Step image resolve system (.unmap virtualAddress result) { system with machine := after }
  | alloc (system : System) :
      Step image resolve system (.alloc system.machine.physical.physicalAllocPage.1) system.alloc
  | free {system : System} {address : Word} : address ∈ system.owned →
      Step image resolve system (.free address) (system.free address)

/-! ## The invariant -/

structure Invariant (image : PagingImage) (system : System) (history : List Physical.Event)
    (taken : Word → Prop) : Prop where
  run : Run (Physical.Initial image.toImage) Physical.Step history system.machine.physical
  clean : Physical.FreesNoHeapPage history
  formed : WellFormed image taken system.machine.memory
  taken_owned : ∀ table, taken table → Physical.owned table history = true
  client_owned : ∀ address ∈ system.owned, Physical.owned address history = true
  apart : ∀ address ∈ system.owned, ¬ taken address
  nodup : system.owned.Nodup
  cr3 : system.machine.cr3 = image.pageDirectory
  pagingEnabled : system.machine.pagingEnabled = true

namespace Invariant

variable {image : PagingImage} {system : System} {history : List Physical.Event}
  {taken : Word → Prop}

/-- The next frame of the allocator is aligned, above 2 MiB and nobody's. -/
theorem next_frame (h : Invariant image system history taken) {frame : Word}
    (hframe : system.machine.physical.physicalAllocPage.1 = frame) (hsome : frame ≠ 0) :
    Aligned frame ∧ 0x200000 ≤ frame.toNat ∧ Physical.owned frame history = false := by
  have hinv := Physical.invariant_of_run h.run
  have hkept := Physical.heapKept_of_run h.run h.clean
  rcases hinv.alloc_cases with ⟨-, halloc⟩ | ⟨page, hmem, -, hlow, hhigh, halloc⟩
  · rw [halloc] at hframe
    exact absurd hframe.symm hsome
  · have haddress : frame.toNat = page * 4096 := by
      rw [← hframe, halloc, Physical.toNat_pageAddress hhigh]
    have hpage := hkept.high page hmem
    refine ⟨by rw [Aligned, haddress]; exact Nat.mul_mod_left _ _, by omega, ?_⟩
    by_contra howned
    exact hinv.alloc_ne_owned hsome (by simpa using howned) hframe

theorem usable (h : Invariant image system history taken)
    (hsome : system.machine.physical.physicalAllocPage.1 ≠ 0) :
    Usable taken system.machine.physical.physicalAllocPage.1 := by
  obtain ⟨haligned, hhigh, hunowned⟩ := h.next_frame rfl hsome
  refine ⟨haligned, hhigh, fun htaken ↦ ?_⟩
  rw [h.taken_owned _ htaken] at hunowned
  cases hunowned

theorem alloc (h : Invariant image system history taken) :
    Invariant image system.alloc
      (.alloc system.machine.physical.physicalAllocPage.1 :: history) taken := by
  have hkeeps (address : Word) (howned : Physical.owned address history = true) :
      Physical.owned address (.alloc system.machine.physical.physicalAllocPage.1 :: history) = true := by
    simp [Physical.owned, howned]
  refine ⟨h.run.step (.alloc _), ?_, h.formed, fun table htaken ↦ hkeeps _ (h.taken_owned table htaken),
    ?_, ?_, ?_, h.cr3, h.pagingEnabled⟩
  · intro address hmem
    exact h.clean address (by simpa using hmem)
  all_goals
    by_cases hzero : system.machine.physical.physicalAllocPage.1 = 0
  · simpa only [System.alloc, if_pos hzero] using fun address hmem ↦ hkeeps _ (h.client_owned address hmem)
  · simp only [System.alloc, if_neg hzero, List.mem_cons]
    rintro address (rfl | hmem)
    · simpa [Physical.owned] using .inl hzero
    · exact hkeeps _ (h.client_owned address hmem)
  · simpa only [System.alloc, if_pos hzero] using h.apart
  · simp only [System.alloc, if_neg hzero, List.mem_cons]
    rintro address (rfl | hmem)
    · exact (h.usable hzero).fresh
    · exact h.apart address hmem
  · simpa only [System.alloc, if_pos hzero] using h.nodup
  · simp only [System.alloc, if_neg hzero, List.nodup_cons]
    refine ⟨fun hmem ↦ ?_, h.nodup⟩
    have hunowned := (h.next_frame rfl hzero).2.2
    rw [h.client_owned _ hmem] at hunowned
    cases hunowned

theorem free (h : Invariant image system history taken) {address : Word}
    (hmem : address ∈ system.owned) :
    Invariant image (system.free address) (.free address :: history) taken := by
  have howned := h.client_owned address hmem
  have hhigh := (Physical.heapKept_of_run h.run h.clean).owned_high address howned
  have hkeeps (other : Word) (hother : Physical.owned other history = true) (hne : address ≠ other) :
      Physical.owned other (.free address :: history) = true := by
    simp [Physical.owned, hother, hne]
  refine ⟨h.run.step (.free _ address), ?_, h.formed, ?_, ?_, ?_, h.nodup.erase _, h.cr3,
    h.pagingEnabled⟩
  · intro other hfreed hheap
    rcases List.mem_cons.mp hfreed with heq | hfreed
    · cases heq
      exact absurd hheap.2.2 (by omega)
    · exact h.clean other hfreed hheap
  · intro table htaken
    exact hkeeps table (h.taken_owned table htaken) fun heq ↦ h.apart address hmem (heq ▸ htaken)
  · intro other hother
    obtain ⟨hne, hkept⟩ := h.nodup.mem_erase_iff.mp hother
    exact hkeeps other (h.client_owned other hkept) hne.symm
  · intro other hother
    exact h.apart other (h.nodup.mem_erase_iff.mp hother).2

/-- A frame becomes a page table. -/
theorem takeFrame (h : Invariant image system history taken) {memory : Memory}
    (hsome : system.machine.physical.physicalAllocPage.1 ≠ 0) {larger : Word → Prop}
    (hlarger : ∀ table, larger table →
      taken table ∨ table = system.machine.physical.physicalAllocPage.1)
    (hformed : WellFormed image larger memory) :
    Invariant image
      { system with
        machine :=
          { system.machine with
            memory := memory
            physical := system.machine.physical.physicalAllocPage.2 } }
      (.alloc system.machine.physical.physicalAllocPage.1 :: history) larger := by
  have halloc := h.alloc
  have hunowned := (h.next_frame rfl hsome).2.2
  refine ⟨halloc.run, halloc.clean, hformed, ?_, ?_, ?_, h.nodup, h.cr3, h.pagingEnabled⟩
  · intro table htaken
    rcases hlarger table htaken with htaken | rfl
    · exact halloc.taken_owned table htaken
    · simpa [Physical.owned] using .inl hsome
  · intro address hmem
    simp [Physical.owned, h.client_owned address hmem]
  · intro address hmem htaken
    rcases hlarger address htaken with htaken | rfl
    · exact h.apart address hmem htaken
    · rw [h.client_owned _ hmem] at hunowned
      cases hunowned

/-- An allocation that fails leaves the allocator alone. -/
theorem alloc_failed (h : Invariant image system history taken)
    (hnone : system.machine.physical.physicalAllocPage.1 = 0) :
    system.machine.physical.physicalAllocPage.2 = system.machine.physical := by
  rcases (Physical.invariant_of_run h.run).alloc_cases with ⟨-, halloc⟩ | ⟨page, -, -, hlow, hhigh, halloc⟩
  · rw [halloc]
  · rw [halloc] at hnone
    exact absurd hnone (Physical.pageAddress_ne_zero hlow hhigh)

/-- A call of `paging_map` that does not return 0 leaves the machine alone. -/
theorem map_failed (h : Invariant image system history taken)
    {virtualAddress physicalAddress flags : Word} {result : ℤ} {after : Machine}
    (hout : MapOutcome image taken system.machine virtualAddress physicalAddress flags result after)
    (hresult : result ≠ 0) : after = system.machine := by
  cases hout with
  | misaligned _ => rfl
  | mapped _ _ _ => rfl
  | full _ _ _ hnone => rw [h.alloc_failed hnone]
  | installed => exact absurd rfl hresult

/-- After a call of `paging_map` the frames taken from the allocator are those before it, and the
new page table if the call made one. -/
theorem mapOutcome_owned (h : Invariant image system history taken)
    {virtualAddress physicalAddress flags : Word} {result : ℤ} {after : Machine}
    (hout : MapOutcome image taken system.machine virtualAddress physicalAddress flags result after) :
    ∃ newer larger, Invariant image { system with machine := after } newer larger ∧
      ∀ address, Physical.owned address newer = true → Physical.owned address history = true ∨
        (result = 0 ∧ address = system.machine.physical.physicalAllocPage.1 ∧
          root system.machine.memory image.pageDirectory (directoryPart virtualAddress) = none) := by
  by_cases hresult : result = 0
  swap
  · rw [h.map_failed hout hresult]
    exact ⟨history, taken, h, fun _ howned ↦ .inl howned⟩
  cases hout with
  | misaligned _ => exact absurd hresult (by decide)
  | mapped _ _ _ => exact absurd hresult (by decide)
  | full _ _ _ _ => exact absurd hresult (by decide)
  | installed _ _ _ hsome hformed _ _ =>
    by_cases habsent : root system.machine.memory image.pageDirectory (directoryPart virtualAddress) =
        none
    · rw [physicalAfter, if_pos habsent]
      refine ⟨_, _, h.takeFrame (hsome habsent) (fun table htaken ↦ htaken.imp_right And.right) hformed,
        fun address howned ↦ ?_⟩
      rw [Physical.owned, Bool.or_eq_true, decide_eq_true_eq] at howned
      exact howned.symm.imp_right fun hnew ↦ ⟨rfl, hnew.2.symm, habsent⟩
    · rw [physicalAfter, if_neg habsent]
      have hsame : WellFormed image taken _ :=
        ⟨hformed.first, hformed.unshared, fun index table hroot ↦ (hformed.placed index table hroot).imp_right
          fun htaken ↦ htaken.resolve_right fun hcreated ↦ habsent hcreated.1, h.formed.high⟩
      exact ⟨history, taken, { h with formed := hsame }, fun _ howned ↦ .inl howned⟩

theorem mapOutcome (h : Invariant image system history taken)
    {virtualAddress physicalAddress flags : Word} {result : ℤ} {after : Machine}
    (hout : MapOutcome image taken system.machine virtualAddress physicalAddress flags result after) :
    ∃ history taken, Invariant image { system with machine := after } history taken := by
  obtain ⟨newer, larger, hinv, -⟩ := h.mapOutcome_owned hout
  exact ⟨newer, larger, hinv⟩

theorem unmapOutcome (h : Invariant image system history taken) {virtualAddress : Word} {result : ℤ}
    {after : Machine} (hout : UnmapOutcome image taken system.machine virtualAddress result after) :
    Invariant image { system with machine := after } history taken := by
  cases hout with
  | misaligned _ => exact h
  | absent _ _ => exact h
  | unmapped _ _ => exact h
  | removed _ _ hformed _ _ => exact { h with formed := hformed }

end Invariant

theorem Initialized.invariant {image : PagingImage} {before after : Machine}
    (hphysical : Physical.Initial image.toImage before.physical) (h : Initialized image before after) :
    Invariant image ⟨after, []⟩ [] (fun _ ↦ False) where
  run := .start (by rw [h.physical]; exact hphysical)
  clean := fun _ hmem ↦ absurd hmem List.not_mem_nil
  formed := h.formed
  taken_owned := fun _ hfalse ↦ hfalse.elim
  client_owned := fun _ hmem ↦ absurd hmem List.not_mem_nil
  apart := fun _ hmem ↦ absurd hmem List.not_mem_nil
  nodup := List.nodup_nil
  cr3 := h.cr3
  pagingEnabled := h.pagingEnabled

/-! ## Direct access: refinement of a partial map -/

/-- Frame and flags of the mapping the processor finds for an address. -/
def mapping (machine : Machine) (address : Word) : Option (Word × Word) :=
  (walk machine.memory (machine.cr3 &&& 0xFFFFF000) address).map fun value ↦
    (value &&& 0xFFFFF000, value &&& 0xFFF)

theorem translate_eq_mapping {machine : Machine} (h : machine.pagingEnabled = true) (address : Word) :
    translate machine address =
      (mapping machine address).map fun found ↦ found.1 ||| (address &&& 0xFFF) := by
  rw [translate, if_pos h, mapping, Option.map_map]
  rfl

theorem Invariant.mapping_eq {image : PagingImage} {system : System} {history : List Physical.Event}
    {taken : Word → Prop} (h : Invariant image system history taken) (address : Word) :
    mapping system.machine address = (walk system.machine.memory image.pageDirectory address).map
      fun value ↦ (value &&& 0xFFFFF000, value &&& 0xFFF) := by
  have hdirectory : Aligned image.pageDirectory := image.directory_aligned
  rw [mapping, h.cr3, hdirectory.and_frame]

theorem exists_invariant {image : PagingImage} {system : System}
    (h : Reachable (Initial image direct) (Step image direct) system) :
    ∃ history taken, Invariant image system history taken := by
  apply h.invariant fun system ↦ ∃ history taken, Invariant image system history taken
  · rintro system ⟨hphysical, -, hexec⟩
    exact ⟨[], _, Initialized.invariant hphysical ((pagingInit_spec image _).of_exec hexec)⟩
  · rintro before event after ⟨history, taken, hbefore⟩ hstep
    cases hstep with
    | map hexec =>
      exact hbefore.mapOutcome
        ((pagingMap_spec hbefore.formed hbefore.usable _ fun _ _ _ ↦ rfl).of_exec hexec)
    | unmap hexec =>
      exact ⟨history, taken, hbefore.unmapOutcome
        ((pagingUnmap_spec hbefore.formed fun _ _ ↦ rfl).of_exec hexec)⟩
    | alloc => exact ⟨_, taken, hbefore.alloc⟩
    | free hmem => exact ⟨_, taken, hbefore.free hmem⟩

theorem identityEntry_eq (address : Word) :
    identityEntry (address.toNat / 4096) = (address &&& 0xFFFFF000) ||| 3 := by
  have hframe : BitVec.ofNat 32 (address.toNat / 4096) * 4096 = address &&& 0xFFFFF000 := by
    apply BitVec.eq_of_toNat_eq
    rw [toNat_and_frame]
    bv_omega
  rw [identityEntry, hframe, BitVec.or_assoc]
  rfl

theorem identityEntry_parts (address : Word) :
    (identityEntry (address.toNat / 4096) &&& 0xFFFFF000,
      identityEntry (address.toNat / 4096) &&& 0xFFF) = (address &&& 0xFFFFF000, 3) := by
  have hframe := aligned_and_frame address
  have hoffset : ((address &&& 0xFFFFF000) ||| 3) &&& 0xFFF = 3 := by
    rw [BitVec.and_or_distrib_right, hframe.and_offset]
    rfl
  rw [identityEntry_eq, hframe.frame_of_or (by decide), hoffset]

/-- The value `paging_map` returns, in terms of the partial map. -/
def mapResult (image : PagingImage) (machine : Machine) (virtualAddress physicalAddress : Word) : ℤ :=
  if ¬ Aligned virtualAddress ∨ ¬ Aligned physicalAddress then -1
  else if mapping machine virtualAddress ≠ none then -3
  else if root machine.memory image.pageDirectory (directoryPart virtualAddress) = none ∧
    machine.physical.free = ∅ then -2
  else 0

theorem Invariant.alloc_eq_zero_iff {image : PagingImage} {system : System}
    {history : List Physical.Event} {taken : Word → Prop} (h : Invariant image system history taken) :
    system.machine.physical.physicalAllocPage.1 = 0 ↔ system.machine.physical.free = ∅ := by
  rcases (Physical.invariant_of_run h.run).alloc_cases with
    ⟨hempty, halloc⟩ | ⟨page, hmem, -, hlow, hhigh, halloc⟩
  · simp [halloc, hempty]
  · rw [halloc]
    exact iff_of_false (Physical.pageAddress_ne_zero hlow hhigh) (Finset.ne_empty_of_mem hmem)

theorem Invariant.mapping_ne_none_iff {image : PagingImage} {system : System}
    {history : List Physical.Event} {taken : Word → Prop} (h : Invariant image system history taken)
    (address : Word) : mapping system.machine address ≠ none ↔
      walk system.machine.memory image.pageDirectory address ≠ none := by
  rw [h.mapping_eq, ne_eq, Option.map_eq_none_iff]

/-- The processor's view after a call that changed at most one page. -/
theorem Invariant.mapping_update {image : PagingImage} {system : System}
    {history : List Physical.Event} {taken : Word → Prop} (h : Invariant image system history taken)
    (after : Machine) (hcr3 : after.cr3 = system.machine.cr3) {address : Word} {value : Option Word}
    (hwalk : walk after.memory image.pageDirectory address = value)
    (hothers : ∀ other : Word, other.toNat / 4096 ≠ address.toNat / 4096 →
      walk after.memory image.pageDirectory other =
        walk system.machine.memory image.pageDirectory other) (other : Word) :
    mapping after other = if other.toNat / 4096 = address.toNat / 4096 then
      value.map fun found ↦ (found &&& 0xFFFFF000, found &&& 0xFFF)
    else mapping system.machine other := by
  have hdirectory : Aligned image.pageDirectory := image.directory_aligned
  rw [mapping, hcr3, h.cr3, hdirectory.and_frame]
  by_cases hpage : other.toNat / 4096 = address.toNat / 4096
  · rw [if_pos hpage, walk_congr_page hpage, hwalk]
  · rw [if_neg hpage, hothers other hpage, h.mapping_eq]

theorem Invariant.map_refines {image : PagingImage} {system : System} {history : List Physical.Event}
    {taken : Word → Prop} (h : Invariant image system history taken)
    {virtualAddress physicalAddress flags : Word} {result : ℤ} {after : Machine}
    (hout : MapOutcome image taken system.machine virtualAddress physicalAddress flags result after) :
    result = mapResult image system.machine virtualAddress physicalAddress ∧
      after.pagingEnabled = system.machine.pagingEnabled ∧
      ∀ other, mapping after other =
        if result = 0 ∧ other.toNat / 4096 = virtualAddress.toNat / 4096 then
          some (physicalAddress, (flags &&& 0xFFF) ||| pagePresent)
        else mapping system.machine other := by
  have hmapping := h.mapping_ne_none_iff virtualAddress
  have hfree := h.alloc_eq_zero_iff
  unfold mapResult
  cases hout with
  | misaligned hmisaligned =>
    rw [if_pos hmisaligned]
    exact ⟨rfl, rfl, fun other ↦ (if_neg (by simp)).symm⟩
  | mapped hvirtual hphysical hmapped =>
    rw [if_neg (by simp [hvirtual, hphysical]), if_pos (hmapping.mpr hmapped)]
    exact ⟨rfl, rfl, fun other ↦ (if_neg (by simp)).symm⟩
  | full hvirtual hphysical habsent hnone =>
    have hunmapped : ¬ mapping system.machine virtualAddress ≠ none := by
      rw [hmapping]
      exact not_not_intro (Radix.lookup_of_no_root habsent _)
    rw [if_neg (by simp [hvirtual, hphysical]), if_neg hunmapped, if_pos ⟨habsent, hfree.mp hnone⟩]
    exact ⟨rfl, rfl, fun other ↦ (if_neg (by simp)).symm⟩
  | @installed memory hvirtual hphysical hunmapped hsome hformed hwalk hothers =>
    have hnone : ¬ mapping system.machine virtualAddress ≠ none := by
      rw [hmapping]
      exact not_not_intro hunmapped
    have hroom : ¬ (root system.machine.memory image.pageDirectory (directoryPart virtualAddress) =
        none ∧ system.machine.physical.free = ∅) :=
      fun hboth ↦ hsome hboth.1 (hfree.mpr hboth.2)
    rw [if_neg (by simp [hvirtual, hphysical]), if_neg hnone, if_neg hroom]
    refine ⟨rfl, rfl, fun other ↦ ?_⟩
    rw [h.mapping_update
        { system.machine with
          memory := memory
          physical := physicalAfter image system.machine virtualAddress } rfl hwalk hothers other,
      Option.map_some, mappedEntry_frame hphysical, mappedEntry_offset hphysical]
    simp

theorem Invariant.unmap_refines {image : PagingImage} {system : System}
    {history : List Physical.Event} {taken : Word → Prop} (h : Invariant image system history taken)
    {virtualAddress : Word} {result : ℤ} {after : Machine}
    (hout : UnmapOutcome image taken system.machine virtualAddress result after) :
    (result = 0 ↔ Aligned virtualAddress ∧ mapping system.machine virtualAddress ≠ none) ∧
      after.pagingEnabled = system.machine.pagingEnabled ∧
      ∀ other, mapping after other =
        if result = 0 ∧ other.toNat / 4096 = virtualAddress.toNat / 4096 then none
        else mapping system.machine other := by
  have hmapping := h.mapping_ne_none_iff virtualAddress
  rw [hmapping]
  cases hout with
  | misaligned hmisaligned =>
    exact ⟨by simp [hmisaligned], rfl, fun other ↦ (if_neg (by simp)).symm⟩
  | absent hvirtual habsent =>
    have hunmapped : walk system.machine.memory image.pageDirectory virtualAddress = none :=
      Radix.lookup_of_no_root habsent _
    exact ⟨by simp [hunmapped], rfl, fun other ↦ (if_neg (by simp)).symm⟩
  | unmapped hvirtual hunmapped =>
    exact ⟨by simp [hunmapped], rfl, fun other ↦ (if_neg (by simp)).symm⟩
  | @removed memory hvirtual hmapped hformed hwalk hothers =>
    refine ⟨iff_of_true rfl ⟨hvirtual, hmapped⟩, rfl, fun other ↦ ?_⟩
    rw [h.mapping_update { system.machine with memory := memory } rfl hwalk hothers other]
    simp

/-- Over direct access the tables refine a partial map from pages to frames with flags. -/
theorem paging_refines_partial_map (image : PagingImage) :
    (∀ system, Initial image direct system → ∀ address, mapping system.machine address =
      if address.toNat < 0x400000 then some (address &&& 0xFFFFF000, pagePresent ||| pageWritable)
      else none) ∧
    ∀ system, Reachable (Initial image direct) (Step image direct) system →
      (∀ virtualAddress physicalAddress flags, ∃ after,
        exec (handle direct) (pagingMap image virtualAddress physicalAddress flags) system.machine =
          some (mapResult image system.machine virtualAddress physicalAddress, after) ∧
        (∀ other, mapping after other =
          if mapResult image system.machine virtualAddress physicalAddress = 0 ∧
            other.toNat / 4096 = virtualAddress.toNat / 4096 then
              some (physicalAddress, (flags &&& 0xFFF) ||| pagePresent)
          else mapping system.machine other) ∧
        ∀ other : Word, other.toNat / 4096 ≠ virtualAddress.toNat / 4096 →
          translate after other = translate system.machine other) ∧
      (∀ virtualAddress, ∃ result after,
        exec (handle direct) (pagingUnmap image virtualAddress) system.machine =
          some (result, after) ∧
        (result = 0 ↔ Aligned virtualAddress ∧ mapping system.machine virtualAddress ≠ none) ∧
        (∀ other, mapping after other =
          if result = 0 ∧ other.toNat / 4096 = virtualAddress.toNat / 4096 then none
          else mapping system.machine other) ∧
        ∀ other : Word, other.toNat / 4096 ≠ virtualAddress.toNat / 4096 →
          translate after other = translate system.machine other) ∧
      (∀ other, mapping system.alloc.machine other = mapping system.machine other) ∧
      ∀ address other, mapping (system.free address).machine other = mapping system.machine other := by
  constructor
  · rintro system ⟨hphysical, -, hexec⟩ address
    have hinit := (pagingInit_spec image _).of_exec hexec
    rw [(hinit.invariant hphysical).mapping_eq, hinit.walk]
    split
    · rw [Option.map_some, identityEntry_parts]
      rfl
    · rfl
  intro system hreachable
  obtain ⟨history, taken, h⟩ := exists_invariant hreachable
  -- The translation is a function of the mapping once paging is on.
  have htranslate {after : Machine} (henabled : after.pagingEnabled = system.machine.pagingEnabled)
      {other : Word} (hsame : mapping after other = mapping system.machine other) :
      translate after other = translate system.machine other := by
    rw [translate_eq_mapping (henabled.trans h.pagingEnabled), translate_eq_mapping h.pagingEnabled,
      hsame]
  refine ⟨?_, ?_, fun _ ↦ rfl, fun _ _ ↦ rfl⟩
  · intro virtualAddress physicalAddress flags
    obtain ⟨result, after, hexec, hout⟩ :=
      (pagingMap_spec h.formed h.usable flags fun _ _ _ ↦ rfl).exec
    obtain ⟨rfl, henabled, hmapping⟩ := h.map_refines hout
    refine ⟨after, hexec, hmapping, fun other hpage ↦ htranslate henabled ?_⟩
    rw [hmapping other, if_neg fun hboth ↦ hpage hboth.2]
  · intro virtualAddress
    obtain ⟨result, after, hexec, hout⟩ := (pagingUnmap_spec h.formed fun _ _ ↦ rfl).exec
    obtain ⟨hresult, henabled, hmapping⟩ := h.unmap_refines hout
    refine ⟨result, after, hexec, hresult, hmapping, fun other hpage ↦ htranslate henabled ?_⟩
    rw [hmapping other, if_neg fun hboth ↦ hpage hboth.2]

/-- A kernel of 92 KiB that ends with its two tables. -/
def smallImage : PagingImage where
  kernelEnd := 0x20000
  start_le := by decide
  le_stack := by decide
  pageDirectory := 0x1E000
  firstPageTable := 0x1F000
  directory_aligned := by decide
  directory_ge := by decide
  directory_le := by decide
  table_aligned := by decide
  table_ge := by decide
  table_le := by decide
  distinct := by decide

/-- The machine after `physical_init` on cleared memory. -/
def bootMachine (image : PagingImage) : Machine :=
  ⟨fun _ ↦ 0, Physical.physicalInit image.toImage ⟨fun _ ↦ 0, 0⟩, 0, false⟩

theorem exists_initial : ∃ machine, Initial smallImage direct ⟨machine, []⟩ ∧
    Initialized smallImage (bootMachine smallImage) machine := by
  obtain ⟨⟨⟩, machine, hexec, hinit⟩ := (pagingInit_spec smallImage (bootMachine smallImage)).exec
  exact ⟨machine, .init ⟨_, rfl⟩ rfl hexec, hinit⟩

theorem Initialized.free_ne_empty {machine : Machine}
    (h : Initialized smallImage (bootMachine smallImage) machine) : machine.physical.free ≠ ∅ := by
  rw [h.physical]
  change (Physical.physicalInit smallImage.toImage ⟨fun _ ↦ 0, 0⟩).free ≠ ∅
  rw [(Physical.physicalInit_spec _ _).1]
  exact Finset.ne_empty_of_mem (Finset.mem_Ico.mpr ⟨le_refl 512, by decide⟩)

/-- The first mapping of a boot puts its page table into the first free frame. -/
theorem paging_refines_partial_map_first_mapping :
    ∃ system, Initial smallImage direct system ∧
      mapping system.machine 0x5000#32 = some (0x5000#32, 3#32) ∧
      ∃ after, exec (handle direct) (pagingMap smallImage 0x400000#32 0x201000#32 2#32)
          system.machine = some (0, after) ∧
        mapping after 0x400000#32 = some (0x201000#32, 3#32) := by
  obtain ⟨machine, hinitial, hinit⟩ := exists_initial
  obtain ⟨hidentity, hcalls⟩ := paging_refines_partial_map smallImage
  obtain ⟨hmap, -⟩ := hcalls _ (.initial hinitial)
  obtain ⟨after, hafter, hmapping, -⟩ := hmap 0x400000#32 0x201000#32 2#32
  have hunmapped : mapping machine 0x400000#32 = none :=
    (hidentity _ hinitial 0x400000#32).trans (if_neg (by decide))
  have hresult : mapResult smallImage machine 0x400000#32 0x201000#32 = 0 := by
    rw [mapResult, if_neg (by decide), if_neg (not_not_intro hunmapped),
      if_neg fun hboth ↦ hinit.free_ne_empty hboth.2]
  have hentry := hmapping 0x400000#32
  rw [hresult] at hafter
  rw [hresult, if_pos ⟨rfl, rfl⟩] at hentry
  refine ⟨_, hinitial, ?_, after, hafter, hentry⟩
  exact (hidentity _ hinitial 0x5000#32).trans (if_pos (by decide))

end NeilOS.Paging
