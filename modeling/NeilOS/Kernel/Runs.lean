import NeilOS.Kernel.Footprint

/-!
# Runs of the whole kernel

The invariants of the heap, of paging and of context switching hold together along every run: each of
them is about the bytes of its own areas, and a step of one module leaves the areas of the others
alone. So the block list, the page tables and the saved contexts are what the calls made of them,
however the tasks, the interrupts and the unpreempted calls of the services follow each other. The first
4 MiB stay mapped to themselves, and that is where these bytes lie.
-/

namespace NeilOS.Kernel

open Foundation Scheduler Context Program

variable {image : KernelImage} {before after state : State} {event : Event} {current : TaskRef}
  {history : List Event}

/-! ## The invariant -/

/-- The memory behind `kmain` was written once more, by `paging_init`, after `scheduler_init`. -/
def contextHistory (history : List Event) : List Context.Event :=
  history.map Event.context ++ [.other]

structure Invariant (image : KernelImage) (history : List Event) (state : State) : Prop where
  heap : ∃ cells, Kmalloc.Invariant state.client cells
  paging : ∃ older taken, Paging.LowMapped image.toPagingImage state.paging older taken
  context : Context.Invariant image.toTaskImage (contextHistory history) state.machine

theorem Invariant.numbered (h : Invariant image history state) : Numbered state.scheduler :=
  h.context.scheduler.numbered

theorem Invariant.isolated (h : Invariant image history state) : Isolated image state := by
  obtain ⟨older, taken, hpaging⟩ := h.paging
  exact Kernel.isolated hpaging.toInvariant h.numbered

theorem Invariant.running (h : Invariant image history state)
    (hcurrent : state.scheduler.curTask = some current) : Running state.machine.system current := by
  obtain ⟨other, hrunning⟩ := h.context.scheduler.running
  obtain rfl := Option.some.inj (hcurrent.symm.trans hrunning.curTask)
  exact hrunning

theorem holds_stack {ref : TaskRef} {target : Word} (hlive : Live state.scheduler ref)
    (htarget : (stackOf image.toTaskImage state.scheduler ref).Contains target) :
    (Area.stack ref).Holds image state target :=
  ⟨_, if_pos hlive, htarget⟩

theorem holds_heap {target : Word} (hlow : 0x100000 ≤ target.toNat) (hhigh : target.toNat < 0x200000) :
    Area.heap.Holds image state target :=
  ⟨_, rfl, hlow, hhigh⟩

theorem holds_directory {target : Word} (h : (Region.page image.pageDirectory).Contains target) :
    Area.directory.Holds image state target :=
  ⟨_, rfl, h⟩

theorem holds_table {index : Fin 1024} {table target : Word}
    (hroot : Paging.root state.memory image.pageDirectory index = some table)
    (htarget : (Region.page table).Contains target) : (Area.table index).Holds image state target :=
  ⟨_, by rw [Area.region, hroot]; rfl, htarget⟩

/-! ## The areas that a step writes -/

/-- The areas in which a step of the current task, or an interrupt of it, may change bytes. A new
task's stack is not yet an area when `task_create` builds on it. -/
def Event.MayWrite (current : TaskRef) : Event → Area → Prop
  | .machine (.interrupt ..), area => area = .stack current
  | .machine (.create ..), _ => False
  | .machine .other, area => area = .stack current ∨ ∃ address, area = .frame address
  | .heap _, area => area = .heap
  | .paging _, area => area = .directory ∨ ∃ index, area = .table index

/-- The frame that an interrupt pushes lies on the current stack. -/
theorem entered_outside {kind : Interrupt}
    (hroom : HasRoom image.toTaskImage state.scheduler current state.machine.cpu) {target : Word}
    (htarget : ¬ (stackOf image.toTaskImage state.scheduler current).Contains target) :
    (state.machine.entered kind).2 target = state.memory target := by
  obtain ⟨hlow, hhigh⟩ := hroom
  have hpushed : Stack.Pushed state.memory state.machine.cpu.esp.toNat
      (frameWords (vector kind) state.machine.cpu) (state.machine.entered kind) :=
    enter_spec (vector kind) state.machine.memory (by omega)
  have hlength : (frameWords (vector kind) state.machine.cpu).length = 13 := rfl
  apply hpushed.outside
  rw [hlength]
  unfold Region.Contains at htarget
  omega

theorem handlerWrites_of_confined {top : Stack.Top} {memory : Memory}
    (hconfined : HandlerConfined image state current top memory) :
    HandlerWrites image.toTaskImage state.scheduler current top memory where
  others := fun ref hne hlive target htarget ↦
    hconfined.areas (.stack ref) target (fun heq ↦ hne (Area.stack.inj heq)) (holds_stack hlive htarget)
  frame := hconfined.frame

/-- The memory after an interrupt is the one that the handler leaves. -/
theorem interrupted_memory (h : Invariant image history state) {kind : Interrupt} {selected : TaskRef}
    {memory : Memory} (hblocking : state.machine.system.blocking = true → kind ≠ .exit)
    (hrunning : Running state.machine.system current)
    (hroom : HasRoom image.toTaskImage state.scheduler current state.machine.cpu)
    (hconfined : HandlerConfined image state current (state.machine.entered kind) memory)
    (hselected : (state.machine.interrupted kind memory).system.scheduler.curTask = some selected) :
    (state.machine.interrupted kind memory).memory = memory := by
  have hentered := entered_spec hrunning h.numbered hroom (handlerWrites_of_confined hconfined)
  exact (interrupted_spec h.context.scheduler hrunning hblocking hentered hselected).2.memory

/-- An area of the kernel in which the new task's stack is a further area, apart from it. -/
theorem created_kept (h : Invariant image history state) {entry : Word} {index : Fin 16}
    {created : Scheduler} (hcreated : Created image.toTaskImage entry state.scheduler index created)
    {area : Area} {target : Word} (hholds : area.Holds image state target) :
    created.memory target = state.memory target := by
  -- The tasks after the creation, on the memory before it.
  let middle : State := { state with
    machine := ⟨state.machine.cpu, { created with memory := state.memory }, false⟩ }
  obtain ⟨older, taken, hpaging⟩ := h.paging
  have hnumbered : Numbered middle.scheduler := by
    obtain ⟨hge, hle, hid, hidle, hunused⟩ := h.numbered.created hcreated
    exact ⟨hge, hle, hid, hidle, hunused⟩
  have hisolated : Isolated image middle := Kernel.isolated hpaging.toInvariant hnumbered
  have hterminated := (terminatedSlot_eq_some hcreated.slot).2.1
  have hnewLive : Live middle.scheduler (.slot index) := by
    refine .inr ?_
    change (created.task (.slot index)).state ≠ .terminated
    rw [hcreated.task_slot]
    exact TaskState.noConfusion
  have hmiddle : area ≠ .stack (.slot index) ∧ area.Holds image middle target := by
    obtain ⟨region, hregion, hcontains⟩ := hholds
    cases area with
    | stack ref =>
      simp only [Area.region, Option.ite_none_right_eq_some] at hregion
      obtain ⟨hlive, hstack⟩ := hregion
      have hne : ref ≠ .slot index := by
        rintro rfl
        exact hlive.resolve_left TaskRef.noConfusion hterminated
      have htask : middle.scheduler.task ref = state.scheduler.task ref := by
        rw [← hcreated.task_other ref hne]
        cases ref <;> rfl
      refine ⟨fun heq ↦ hne (Area.stack.inj heq), holds_stack (by rwa [Live, htask]) ?_⟩
      rw [stackOf_congr (congrArg Task.id htask), Option.some.inj hstack]
      exact hcontains
    | heap => exact ⟨Area.noConfusion, region, hregion, hcontains⟩
    | directory => exact ⟨Area.noConfusion, region, hregion, hcontains⟩
    | table index => exact ⟨Area.noConfusion, region, hregion, hcontains⟩
    | frame address => exact ⟨Area.noConfusion, region, hregion, hcontains⟩
  have hnew : stackOf image.toTaskImage middle.scheduler (.slot index) =
      stackOf image.toTaskImage created (.slot index) := rfl
  have hapart : ¬ (stackOf image.toTaskImage created (.slot index)).Contains target := by
    intro hcontains
    exact hisolated.not_holds hmiddle.1 hmiddle.2 (holds_stack hnewLive (hnew ▸ hcontains))
  have hstack := hcreated.stackOf_eq h.numbered
  have hlength : (contextWords image.toTaskImage entry).length = 14 := rfl
  apply (hcreated.pushed h.numbered).outside
  rw [hlength]
  rw [hstack] at hapart ⊢
  unfold Region.Contains at hapart
  dsimp only at hapart ⊢
  omega

/-- A step keeps the bytes of every area that it may not write. -/
theorem Invariant.area_kept (h : Invariant image history before) (hstep : Step image before event after)
    (hcurrent : before.scheduler.curTask = some current) {area : Area}
    (harea : ¬ event.MayWrite current area) {target : Word} (hholds : area.Holds image before target) :
    after.memory target = before.memory target := by
  have hrunning := h.running hcurrent
  cases hstep with
  | @interrupt kind active selected memory hblocking hactive hroom hconfined hselected =>
    obtain rfl := Option.some.inj (hactive.symm.trans hcurrent)
    have hmemory := interrupted_memory h hblocking hrunning hroom hconfined hselected
    change (before.machine.interrupted kind memory).memory target = _
    rw [hmemory, hconfined.areas area target harea hholds]
    apply entered_outside hroom
    intro hstack
    exact h.isolated.not_holds harea hholds (holds_stack hrunning.live hstack)
  | @create cpu entry hblocking =>
    change (taskCreate image.toTaskImage entry before.scheduler).2.memory target = _
    rcases h.numbered.creation_cases image.toTaskImage entry with ⟨-, hsame⟩ | ⟨index, -, hcreated⟩
    · rw [hsame]
      rfl
    · exact created_kept h hcreated hholds
  | block hblocking =>
    change (taskBlock before.scheduler).memory target = _
    rw [taskBlock, hcurrent]
    exact congrFun (memory_modify ..) target
  | @unblock cpu id hblocking =>
    change (taskUnblock id before.scheduler).2.memory target = _
    rcases taskUnblock_spec id before.scheduler with hsame | ⟨index, -, hafter⟩
    · rw [hsame]
      rfl
    · rw [hafter]
      exact congrFun (memory_modify ..) target
  | @execute cpu active memory hactive hconfined =>
    obtain rfl := Option.some.inj (hactive.symm.trans hcurrent)
    rw [Event.MayWrite, not_or] at harea
    refine hconfined area target ?_ hholds
    cases area with
    | frame address => exact harea.2 ⟨address, rfl⟩
    | stack ref => exact fun heq ↦ harea.1 (congrArg Area.stack heq)
    | _ => trivial
  | heap hheap =>
    obtain ⟨cells, hcells⟩ := h.heap
    apply hcells.step_frame hheap
    rintro ⟨hlow, hhigh⟩
    exact h.isolated.not_holds harea hholds (holds_heap hlow hhigh)
  | @paging cpu event system hpaging =>
    obtain ⟨older, taken, hinv⟩ := h.paging
    rw [Event.MayWrite, not_or, not_exists] at harea
    rcases hinv.toInvariant.step_frame (hinv.direct_step hpaging) with
      hsame | ⟨howned, index, table, hroot, hframe⟩
    · exact congrFun hsame target
    obtain ⟨newer, larger, hnext⟩ := hinv.toInvariant.step (hinv.direct_step hpaging)
    have hnumbered : Numbered (before.withPaging cpu system).scheduler := by
      obtain ⟨hge, hle, hid, hidle, hunused⟩ := h.numbered
      exact ⟨hge, hle, hid, hidle, hunused⟩
    have hisolated : Isolated image (before.withPaging cpu system) := Kernel.isolated hnext hnumbered
    have hkept : area.Holds image (before.withPaging cpu system) target := by
      obtain ⟨region, hregion, hcontains⟩ := hholds
      cases area with
      | heap => exact ⟨region, hregion, hcontains⟩
      | directory => exact absurd rfl harea.1
      | table other => exact absurd rfl (harea.2 other)
      | frame address =>
        refine ⟨region, ?_, hcontains⟩
        rw [← hregion, Area.region, Area.region]
        exact if_congr (by rw [State.withPaging, howned]; rfl) rfl rfl
      | stack ref =>
        refine ⟨region, ?_, hcontains⟩
        rw [← hregion, Area.region, Area.region]
        exact if_congr (live_withMemory before.machine _ ref) rfl rfl
    apply hframe target
    · exact fun hdirectory ↦ hisolated.not_holds harea.1 hkept (holds_directory hdirectory)
    · exact fun htable ↦ hisolated.not_holds (harea.2 index) hkept (holds_table hroot htable)

/-! ## Whole runs -/

/-- Heap and paging calls are, for the other tasks, code of the current task like any other. -/
theorem Invariant.context_step (h : Invariant image history before)
    (hstep : Step image before event after) :
    Context.Step image.toTaskImage before.machine event.context after.machine := by
  obtain ⟨current, hrunning⟩ := h.context.scheduler.running
  have hkept (harea : ∀ ref, ref ≠ current → ¬ event.MayWrite current (.stack ref)) :
      OthersKept image.toTaskImage before.scheduler current after.memory :=
    fun ref hne hlive _ htarget ↦
      h.area_kept hstep hrunning.curTask (harea ref hne) (holds_stack hlive htarget)
  cases hstep with
  | interrupt hblocking hcurrent hroom hconfined hselected =>
    exact .interrupt hblocking hcurrent hroom (handlerWrites_of_confined hconfined) hselected
  | create hblocking =>
    obtain ⟨⟨cpu, scheduler, blocking⟩, _⟩ := before
    cases hblocking
    exact .create
  | block hblocking =>
    obtain ⟨⟨cpu, scheduler, blocking⟩, _⟩ := before
    cases hblocking
    exact .block
  | unblock hblocking =>
    obtain ⟨⟨cpu, scheduler, blocking⟩, _⟩ := before
    cases hblocking
    exact .unblock
  | execute hcurrent hconfined =>
    refine .execute hcurrent fun ref hne hlive target htarget ↦ ?_
    exact hconfined (.stack ref) target hne (holds_stack hlive htarget)
  | heap _ => exact .execute hrunning.curTask (hkept fun _ _ ↦ Area.noConfusion)
  | paging _ =>
    refine .execute hrunning.curTask (hkept fun ref _ hwrites ↦ ?_)
    rcases hwrites with hdirectory | ⟨index, htable⟩
    · cases hdirectory
    · cases htable

theorem Invariant.heap_step (h : Invariant image history before)
    (hstep : Step image before event after) : ∃ cells, Kmalloc.Invariant after.client cells := by
  obtain ⟨current, hrunning⟩ := h.context.scheduler.running
  obtain ⟨cells, hcells⟩ := h.heap
  have hkept (hevent : ¬ event.MayWrite current .heap) (hclient : after.client =
      { before.client with memory := after.memory }) : ∃ cells, Kmalloc.Invariant after.client cells := by
    rw [hclient]
    exact ⟨cells, hcells.congr_heap fun target hlow hhigh ↦
      h.area_kept hstep hrunning.curTask hevent (holds_heap hlow hhigh)⟩
  cases hstep with
  | heap hheap => exact hcells.step hheap
  | _ => exact hkept (by simp [Event.MayWrite]) rfl

/-- A step that writes neither the directory nor a page table keeps every mapping. -/
theorem Invariant.mapping_kept (h : Invariant image history before)
    (hstep : Step image before event after) (hcr3 : after.cr3 = before.cr3)
    (hevent : ∀ current, ¬ event.MayWrite current .directory ∧
      ∀ index, ¬ event.MayWrite current (.table index)) (address : Word) :
    Paging.mapping after.paging.machine address = Paging.mapping before.paging.machine address := by
  obtain ⟨current, hrunning⟩ := h.context.scheduler.running
  obtain ⟨older, taken, hpaging⟩ := h.paging
  obtain ⟨hdirectory, htables⟩ := hevent current
  have hroot : Paging.root after.memory image.pageDirectory =
      Paging.root before.memory image.pageDirectory :=
    Paging.root_congr image.directory_aligned fun target htarget ↦
      h.area_kept hstep hrunning.curTask hdirectory (holds_directory htarget)
  have hwalk : Paging.walk after.memory image.pageDirectory address =
      Paging.walk before.memory image.pageDirectory address := by
    unfold Paging.walk Radix.lookup
    rw [hroot]
    cases hentry : Paging.root before.memory image.pageDirectory (Paging.directoryPart address) with
    | none => rfl
    | some table =>
      have hslots : Paging.slots after.memory table = Paging.slots before.memory table :=
        Paging.slots_congr (Paging.aligned_of_root hentry) fun target htarget ↦
          h.area_kept hstep hrunning.curTask (htables _) (holds_table hentry htarget)
      exact congrFun hslots _
  have haligned : Paging.Aligned image.pageDirectory := image.directory_aligned
  have hbefore : before.cr3 = image.pageDirectory := hpaging.cr3
  unfold Paging.mapping
  change (Paging.walk after.memory (after.cr3 &&& _) address).map _ =
    (Paging.walk before.memory (before.cr3 &&& _) address).map _
  rw [hcr3, hbefore, haligned.and_frame, hwalk]

theorem Invariant.paging_step (h : Invariant image history before)
    (hstep : Step image before event after) :
    ∃ newer larger, Paging.LowMapped image.toPagingImage after.paging newer larger := by
  obtain ⟨current, hrunning⟩ := h.context.scheduler.running
  obtain ⟨older, taken, hpaging⟩ := h.paging
  have hkept (hevent : ∀ current, ¬ event.MayWrite current .directory ∧
        ∀ index, ¬ event.MayWrite current (.table index)) (hsystem : after.paging =
      { before.paging with machine := { before.paging.machine with memory := after.memory } }) :
      ∃ newer larger, Paging.LowMapped image.toPagingImage after.paging newer larger := by
    have hcr3 : after.cr3 = before.cr3 := congrArg (fun system ↦ system.machine.cr3) hsystem
    have hmapping := h.mapping_kept hstep hcr3 hevent
    have hinvariant := hpaging.toInvariant.congr_directory fun target htarget ↦
      h.area_kept hstep hrunning.curTask (hevent current).1 (holds_directory htarget)
    rw [← hsystem] at hinvariant
    refine ⟨older, taken, hinvariant, fun page haligned hpage ↦ ?_⟩
    obtain ⟨flags, hflags⟩ := hpaging.low page haligned hpage
    exact ⟨flags, (hmapping page).trans hflags⟩
  cases hstep with
  | paging hcall => exact hpaging.step hcall
  | _ => exact hkept (fun current ↦ by simp [Event.MayWrite]) rfl

theorem Invariant.step (h : Invariant image history before) (hstep : Step image before event after) :
    Invariant image (event :: history) after where
  heap := h.heap_step hstep
  paging := h.paging_step hstep
  context := h.context.machine_step (h.context_step hstep)

/-- `scheduler_init` writes the stack of the idle task and `paging_init` the two static tables. -/
theorem InitialFrom.outside {ready : Memory} (h : InitialFrom image ready state) {target : Word}
    (hidle : ¬ (⟨image.idleStack.toNat, image.idleStack.toNat + 4096⟩ : Region).Contains target)
    (hdirectory : ¬ (Region.page image.pageDirectory).Contains target)
    (htable : ¬ (Region.page image.firstPageTable).Contains target) :
    state.memory target = ready target := by
  cases h with
  | @kmain memory heapReady head cr3 physical scheduler cpu paged hheap hready hpaging =>
    have hwritten := ((Paging.within_frame image.table_aligned
      (Paging.pagingInit_within image.toPagingImage _)).of_exec hpaging).2
    have hidleEnd := idle_le_boot image.toTaskImage
    have hlength : (contextWords image.toTaskImage image.idleTaskEntry).length = 14 := rfl
    have hbound : image.toTaskImage.idleStack.toNat + 4096 < 2 ^ 32 := by omega
    have hcontext := taskCreateContext_spec image.toTaskImage image.idleTaskEntry ready hbound
    calc paged.memory target
        = (schedulerInit image.toTaskImage { scheduler with memory := ready }).memory target :=
          hwritten target hdirectory htable
      _ = ready target := by
          apply hcontext.outside
          rw [hlength]
          change ¬ (image.toTaskImage.idleStack.toNat ≤ target.toNat ∧
            target.toNat < image.toTaskImage.idleStack.toNat + 4096) at hidle
          omega

/-- The bytes that `paging_init` writes are on no stack and not in the heap. -/
theorem Initial.invariant (h : Initial image state) : Invariant image [] state := by
  obtain ⟨ready, h⟩ := h
  have houtside (target : Word) := @InitialFrom.outside image state ready h target
  cases h with
  | @kmain memory heapReady head cr3 physical scheduler cpu paged hheap hready hpaging =>
    generalize hbooted : schedulerInit image.toTaskImage { scheduler with memory := ready } = booted
      at hpaging ⊢ houtside
    have hinitial : Scheduler.Initial image.toTaskImage ⟨booted, false⟩ := ⟨_, by rw [← hbooted]⟩
    have hnumbered := hinitial.invariant.numbered
    have hwritten := ((Paging.within_frame image.table_aligned
      (Paging.pagingInit_within image.toPagingImage _)).of_exec hpaging).2
    have hends := image.le_stack
    have hdirectoryEnd := image.directory_le
    have htableEnd := image.table_le
    have hidleEnd := image.idle_le
    refine ⟨⟨_, (Kmalloc.Invariant.initial (.init hheap)).congr_heap fun target hlow hhigh ↦ ?_⟩,
      ⟨[], _, Paging.Initialized.lowMapped ⟨physical, rfl⟩
        ((Paging.pagingInit_spec image.toPagingImage _).of_exec hpaging)⟩, ?_⟩
    · refine (houtside target ?_ ?_ ?_).trans (hready target hlow hhigh)
      all_goals
        simp only [Region.Contains, Region.page]
        omega
    · have hmachine : Context.Initial image.toTaskImage ⟨cpu, booted, false⟩ := hinitial
      have hcurrent : booted.curTask = some (.slot 0) := by
        rw [← hbooted]
        rfl
      apply (Initial.machine_invariant hmachine).machine_step
      refine .execute hcurrent fun ref _ hlive target htarget ↦ ?_
      apply hwritten target
      · exact (table_apart_stack hnumbered (by simp) hlive).symm.not_contains htarget
      · exact (table_apart_stack hnumbered (by simp) hlive).symm.not_contains htarget

theorem run_invariant (hrun : Run (Initial image) (Step image) history state) :
    Invariant image history state :=
  hrun.induct (Invariant image) (fun _ ↦ Initial.invariant) fun _ _ _ _ _ hbefore hstep ↦
    hbefore.step hstep

/-! ## A small kernel -/

/-- `kmain` runs to its end. -/
theorem exists_initial (image : KernelImage) (cpu : Cpu) :
    ∃ state, Initial image state ∧ state.machine.cpu = cpu ∧ state.machine.system.blocking = false ∧
      state.scheduler.curTask = some (.slot 0) := by
  obtain ⟨head, heapReady, hheap, -⟩ := (Kmalloc.kmallocInit_spec fun _ ↦ 0).exec
  obtain ⟨⟨⟩, paged, hpaging, -⟩ := (Paging.pagingInit_spec image.toPagingImage
    ⟨(schedulerInit image.toTaskImage { emptyScheduler with memory := heapReady }).memory,
      Physical.physicalInit image.toImage ⟨fun _ ↦ 0, 0⟩, 0, false⟩).exec
  exact ⟨_, ⟨heapReady, .kmain hheap (fun _ _ _ ↦ rfl) hpaging⟩, rfl, rfl, rfl⟩

/-- A call of `kmalloc` can follow. -/
theorem exists_kmalloc (h : Invariant image history state) (size : Word) :
    ∃ pointer after, Step image state (.heap (.kmalloc size pointer)) after := by
  obtain ⟨cells, hcells⟩ := h.heap
  obtain ⟨pointer, memory, hexec, -⟩ := (hcells.kmalloc_spec size).exec
  exact ⟨pointer, state.withClient state.machine.cpu _, .heap (.kmalloc hexec)⟩

/-- The map that `paging_init` builds. -/
def identityMapping (address : Word) : Option (Word × Word) :=
  if address.toNat < 0x400000 then some (address &&& 0xFFFFF000, 3) else none

theorem Initial.mapping_eq (h : Initial image state) (address : Word) :
    Paging.mapping state.paging.machine address = identityMapping address := by
  obtain ⟨older, taken, hpaging⟩ := h.invariant.paging
  obtain ⟨ready, h⟩ := h
  cases h with
  | @kmain _ _ _ _ _ _ _ paged _ _ hexec =>
    have hinit := (Paging.pagingInit_spec image.toPagingImage _).of_exec hexec
    refine (hpaging.mapping_eq address).trans ?_
    change (Paging.walk paged.memory image.pageDirectory address).map _ = identityMapping address
    rw [hinit.walk, identityMapping]
    split_ifs with hlow
    · exact congrArg some (Paging.identityEntry_parts address)
    · rfl

end NeilOS.Kernel
