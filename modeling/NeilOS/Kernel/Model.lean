import NeilOS.Context.Runs
import NeilOS.Kmalloc.Client
import NeilOS.Paging.Translated

/-!
# The kernel on one memory

`kmain` sets up the page allocator, the heap, the scheduler and paging. From then on the tasks, the
interrupt handlers and the services that the tasks call work on one memory. Here the models of the
heap, of paging and of context switching are put on the same bytes, under three assumptions.

* A call of a service is one step. `kmalloc.c`, `physical.c` and `paging.c` do not mask interrupts, so
  these are the runs in which no task is preempted inside such a call.
* The code of the tasks and the bodies of the handlers are confined to their own areas.
* Calls of `paging.c` leave the first 4 MiB alone and reach the page table they work on. The heap, the
  stacks and the static tables lie in the first 4 MiB, so the steps reach them at their physical
  addresses although paging is on.
-/

namespace NeilOS

open Foundation

/-- The bytes of the page at an address. -/
def Scheduler.Region.page (address : Word) : Scheduler.Region :=
  ⟨address.toNat, address.toNat + 4096⟩

/-- The linker places the stacks of `scheduler.c` and the tables of `paging.c` apart. -/
structure KernelImage extends PagingImage, TaskImage where
  tables_apart : ∀ table ∈ [pageDirectory, firstPageTable],
    (Scheduler.Region.page table).Apart ⟨taskStacks.toNat, taskStacks.toNat + 15 * 4096⟩ ∧
      (Scheduler.Region.page table).Apart ⟨idleStack.toNat, idleStack.toNat + 4096⟩

namespace Kernel

open Scheduler Context Program

/-- What the modules of the kernel keep, beside the memory that they share. -/
structure State where
  machine : Context.Machine
  head : Word
  live : List Word
  stored : Word → Option Byte
  physical : Physical
  cr3 : Word
  pagingEnabled : Bool
  owned : List Word

namespace State

def memory (state : State) : Memory := state.machine.memory

def scheduler (state : State) : Scheduler := state.machine.system.scheduler

/-- The heap as its clients see it. -/
def client (state : State) : Kmalloc.Client :=
  ⟨state.memory, state.head, state.live, state.stored⟩

/-- The paging and page-allocator side. -/
def paging (state : State) : Paging.System :=
  ⟨⟨state.memory, state.physical, state.cr3, state.pagingEnabled⟩, state.owned⟩

/-- The code of the current task has left other registers and another memory. -/
def resume (state : State) (cpu : Cpu) (memory : Memory) : Context.Machine :=
  ⟨cpu, state.machine.withMemory memory, state.machine.system.blocking⟩

def withClient (state : State) (cpu : Cpu) (client : Kmalloc.Client) : State :=
  { state with
    machine := state.resume cpu client.memory
    head := client.head
    live := client.live
    stored := client.stored }

def withPaging (state : State) (cpu : Cpu) (paging : Paging.System) : State :=
  { state with
    machine := state.resume cpu paging.machine.memory
    physical := paging.machine.physical
    cr3 := paging.machine.cr3
    pagingEnabled := paging.machine.pagingEnabled
    owned := paging.owned }

end State

/-! ## The areas of the memory -/

inductive Area where
  | heap
  | directory
  | table (index : Fin 1024)
  | frame (address : Word)
  | stack (ref : TaskRef)
deriving DecidableEq

instance (scheduler : Scheduler) (ref : TaskRef) : Decidable (Live scheduler ref) :=
  inferInstanceAs (Decidable (_ ∨ _))

/-- The bytes of an area, if the area exists. -/
def Area.region (image : KernelImage) (state : State) : Area → Option Region
  | .heap => some ⟨Kmalloc.heap.toNat, Kmalloc.heap.toNat + Kmalloc.heapSize.toNat⟩
  | .directory => some (.page image.pageDirectory)
  | .table index => (Paging.root state.memory image.pageDirectory index).map .page
  | .frame address => if address ∈ state.owned then some (.page address) else none
  | .stack ref =>
      if Live state.scheduler ref then some (stackOf image.toTaskImage state.scheduler ref) else none

def Area.Holds (image : KernelImage) (state : State) (area : Area) (target : Word) : Prop :=
  ∃ region, area.region image state = some region ∧ region.Contains target

/-- The areas that the code of a task may not write by itself: the services write the heap's headers
and the tables for it. -/
def Area.Foreign (current : TaskRef) : Area → Prop
  | .frame _ => False
  | .stack ref => ref ≠ current
  | _ => True

/-! ## Steps -/

/-- The code of the current task writes its own stack, its frames, and nothing of the other areas. -/
def Confined (image : KernelImage) (state : State) (current : TaskRef) (memory : Memory) : Prop :=
  ∀ (area : Area) (target : Word), area.Foreign current → area.Holds image state target →
    memory target = state.memory target

/-- A handler writes below the saved frame on the interrupted stack, and in no other area. -/
structure HandlerConfined (image : KernelImage) (state : State) (current : TaskRef) (top : Stack.Top)
    (memory : Memory) : Prop where
  areas : ∀ (area : Area) (target : Word), area ≠ .stack current → area.Holds image state target →
    memory target = top.2 target
  frame : ∀ target, (stackOf image.toTaskImage state.scheduler current).Contains target →
    top.1.toNat ≤ target.toNat → memory target = top.2 target

inductive Event where
  | machine (event : Context.Event)
  | heap (event : Kmalloc.Event)
  | paging (event : Paging.Event)

/-- What an event is for the context switches: a service call is code of the current task. -/
def Event.context : Event → Context.Event
  | .machine event => event
  | .heap _ => .other
  | .paging _ => .other

/-- The order of `kmain`: `physical_init`, `kmalloc_init`, `scheduler_init`, `paging_init`. What is set up
between the second and the third of them, such as the interrupt descriptor table, leaves the heap alone;
`ready` is the memory that `scheduler_init` finds. Paging is off until the last instruction of
`paging_init`. -/
inductive InitialFrom (image : KernelImage) (ready : Memory) : State → Prop where
  | kmain {memory heapReady : Memory} {head cr3 : Word} {physical : Physical} {scheduler : Scheduler}
      {cpu : Cpu} {paged : Paging.Machine} :
      exec MemoryOp.handle Kmalloc.kmallocInit memory = some (head, heapReady) →
      (∀ target : Word, 0x100000 ≤ target.toNat → target.toNat < 0x200000 →
        ready target = heapReady target) →
      exec (Paging.handle Paging.direct) (Paging.pagingInit image.toPagingImage)
        ⟨(schedulerInit image.toTaskImage { scheduler with memory := ready }).memory,
          Physical.physicalInit image.toImage physical, cr3, false⟩ = some ((), paged) →
      InitialFrom image ready
        { machine :=
            ⟨cpu, { schedulerInit image.toTaskImage { scheduler with memory := ready } with
              memory := paged.memory }, false⟩
          head := head
          live := []
          stored := fun _ ↦ none
          physical := paged.physical
          cr3 := paged.cr3
          pagingEnabled := paged.pagingEnabled
          owned := [] }

def Initial (image : KernelImage) (state : State) : Prop := ∃ ready, InitialFrom image ready state

inductive Step (image : KernelImage) : State → Event → State → Prop where
  | interrupt {state : State} {kind : Interrupt} {current selected : TaskRef} {memory : Memory} :
      (state.machine.system.blocking = true → kind ≠ .exit) →
      state.scheduler.curTask = some current →
      HasRoom image.toTaskImage state.scheduler current state.machine.cpu →
      HandlerConfined image state current (state.machine.entered kind) memory →
      (state.machine.interrupted kind memory).system.scheduler.curTask = some selected →
        Step image state
          (.machine (.interrupt kind current state.machine.cpu selected
            (state.machine.interrupted kind memory).cpu))
          { state with machine := state.machine.interrupted kind memory }
  | create {state : State} {after : Cpu} {entry : Word} : state.machine.system.blocking = false →
      Step image state
        (.machine (.create entry ((creation image.toTaskImage entry state.scheduler).map Prod.fst)))
        { state with
          machine := ⟨after, (taskCreate image.toTaskImage entry state.scheduler).2, false⟩ }
  | block {state : State} {after : Cpu} : state.machine.system.blocking = false →
      Step image state (.machine .other)
        { state with machine := ⟨after, taskBlock state.scheduler, true⟩ }
  | unblock {state : State} {after : Cpu} {id : Word} : state.machine.system.blocking = false →
      Step image state (.machine .other)
        { state with machine := ⟨after, (taskUnblock id state.scheduler).2, false⟩ }
  | execute {state : State} {after : Cpu} {current : TaskRef} {memory : Memory} :
      state.scheduler.curTask = some current → Confined image state current memory →
        Step image state (.machine .other) { state with machine := state.resume after memory }
  | heap {state : State} {after : Cpu} {event : Kmalloc.Event} {client : Kmalloc.Client} :
      Kmalloc.Step state.client event client →
        Step image state (.heap event) (state.withClient after client)
  | paging {state : State} {after : Cpu} {event : Paging.Event} {paging : Paging.System} :
      Paging.GuardedStep image.toPagingImage state.paging event paging →
        Step image state (.paging event) (state.withPaging after paging)

end Kernel

end NeilOS
