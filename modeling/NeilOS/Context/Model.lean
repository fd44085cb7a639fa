import NeilOS.Scheduler.Stacks

/-!
# Interrupts and context switches on the machine

The processor's same-privilege interrupt entry, the `ISR_NOERROR` stubs, `isr_common` and
`interrupt_handler`, over the byte memory that holds the stacks. The gates are interrupt gates, so
one interrupt is handled to its end before the next.
-/

namespace NeilOS.Context

open Foundation Scheduler

@[ext]
structure Cpu where
  eax : Word
  ecx : Word
  edx : Word
  ebx : Word
  esp : Word
  ebp : Word
  esi : Word
  edi : Word
  eip : Word
  cs : BitVec 16
  eflags : Word

/-- The vector behind which each handler is installed. -/
def vector : Interrupt → Word
  | .tick => 32
  | .yield => 49
  | .exit => 50

/-- From the interrupt to the end of `pusha`; the stack pointer is then the address of `regs`. -/
def enter (number : Word) (cpu : Cpu) (memory : Memory) : Stack.Top :=
  -- The processor, then the stub, then `pusha` with the stack pointer it started from.
  let top := Stack.pushAll [cpu.eflags, cpu.cs.setWidth 32, cpu.eip] (cpu.esp, memory)
  let top := Stack.pushAll [0, number] top
  Stack.pushAll [cpu.eax, cpu.ecx, cpu.edx, cpu.ebx, top.1, cpu.ebp, cpu.esi, cpu.edi] top

/-- `mov esp, eax`, `popa`, which skips the stack pointer, `add esp, 8` and `iretd`. -/
def leave (pointer : Word) (memory : Memory) : Cpu where
  edi := memory.load32 pointer
  esi := memory.load32 (pointer + 4)
  ebp := memory.load32 (pointer + 8)
  ebx := memory.load32 (pointer + 16)
  edx := memory.load32 (pointer + 20)
  ecx := memory.load32 (pointer + 24)
  eax := memory.load32 (pointer + 28)
  eip := memory.load32 (pointer + 40)
  cs := (memory.load32 (pointer + 44)).setWidth 16
  eflags := memory.load32 (pointer + 48)
  esp := pointer + 52

/-- The near return at the end of a task's entry function. -/
def ret (cpu : Cpu) (memory : Memory) : Cpu :=
  { cpu with eip := memory.load32 cpu.esp, esp := cpu.esp + 4 }

/-- The dispatch on `regs->int_no`; every other vector returns `regs`. -/
def interruptHandler (regs : Word) (scheduler : Scheduler) : Word × Scheduler :=
  let number := scheduler.memory.load32 (regs + 32)
  if number = 32 then schedulerTick regs scheduler
  else if number = 49 then schedulerSchedule regs scheduler
  else if number = 50 then schedulerExit regs scheduler
  else (regs, scheduler)

theorem interruptHandler_eq {kind : Interrupt} {regs : Word} {scheduler : Scheduler}
    (h : scheduler.memory.load32 (regs + 32) = vector kind) :
    interruptHandler regs scheduler = scheduler.interrupt kind regs := by
  unfold interruptHandler
  rw [h]
  cases kind <;> rfl

/-! ## The system -/

structure Machine where
  cpu : Cpu
  system : System

namespace Machine

def memory (machine : Machine) : Memory := machine.system.scheduler.memory

/-- The stack pointer and the memory when the handler is called. -/
def entered (machine : Machine) (kind : Interrupt) : Stack.Top :=
  enter (vector kind) machine.cpu machine.memory

/-- The scheduler's variables with another memory. -/
def withMemory (machine : Machine) (memory : Memory) : Scheduler :=
  { machine.system.scheduler with memory := memory }

/-- What the handler returns, in the memory it leaves. -/
def handled (machine : Machine) (kind : Interrupt) (memory : Memory) : Word × Scheduler :=
  interruptHandler (machine.entered kind).1 (machine.withMemory memory)

/-- The machine after the interrupt. A decision ends the window of `task_block`. -/
def interrupted (machine : Machine) (kind : Interrupt) (memory : Memory) : Machine :=
  let result := machine.handled kind memory
  ⟨leave result.1 result.2.memory, result.2,
    machine.system.blocking && !(machine.withMemory memory).decides kind (machine.entered kind).1⟩

end Machine

inductive Event where
  | interrupt (kind : Interrupt) (outgoing : TaskRef) (interrupted : Cpu) (selected : TaskRef)
      (resumed : Cpu)
  | create (entry : Word) (created : Option (Fin 16))
  | other

def Initial (image : TaskImage) (machine : Machine) : Prop :=
  Scheduler.Initial image machine.system

/-- The code of a task leaves the other tasks' stacks alone. -/
def OthersKept (image : TaskImage) (scheduler : Scheduler) (current : TaskRef) (memory : Memory) : Prop :=
  ∀ ref, ref ≠ current → Live scheduler ref → ∀ target,
    (stackOf image scheduler ref).Contains target → memory target = scheduler.memory target

/-- The handler writes on the interrupted stack only below the saved frame, and on no other. The
argument and the return address that `isr_common` pushes for the call are among these writes. -/
structure HandlerWrites (image : TaskImage) (scheduler : Scheduler) (current : TaskRef) (top : Stack.Top)
    (memory : Memory) : Prop where
  others : ∀ ref, ref ≠ current → Live scheduler ref → ∀ target,
    (stackOf image scheduler ref).Contains target → memory target = top.2 target
  frame : ∀ target, (stackOf image scheduler current).Contains target →
    top.1.toNat ≤ target.toNat → memory target = top.2 target

/-- The interrupted task runs on its own stack, with room for the frame of 13 words. -/
def HasRoom (image : TaskImage) (scheduler : Scheduler) (current : TaskRef) (cpu : Cpu) : Prop :=
  (stackOf image scheduler current).low + 52 ≤ cpu.esp.toNat ∧
    cpu.esp.toNat ≤ (stackOf image scheduler current).high

inductive Step (image : TaskImage) : Machine → Event → Machine → Prop where
  | interrupt {machine : Machine} {kind : Interrupt} {current selected : TaskRef} {memory : Memory} :
      (machine.system.blocking = true → kind ≠ .exit) →
      machine.system.scheduler.curTask = some current →
      HasRoom image machine.system.scheduler current machine.cpu →
      HandlerWrites image machine.system.scheduler current (machine.entered kind) memory →
      (machine.interrupted kind memory).system.scheduler.curTask = some selected →
        Step image machine
          (.interrupt kind current machine.cpu selected (machine.interrupted kind memory).cpu)
          (machine.interrupted kind memory)
  | create {cpu after : Cpu} {scheduler : Scheduler} {entry : Word} :
      Step image ⟨cpu, scheduler, false⟩
        (.create entry ((creation image entry scheduler).map Prod.fst))
        ⟨after, (taskCreate image entry scheduler).2, false⟩
  | block {cpu after : Cpu} {scheduler : Scheduler} :
      Step image ⟨cpu, scheduler, false⟩ .other ⟨after, taskBlock scheduler, true⟩
  | unblock {cpu after : Cpu} {scheduler : Scheduler} {id : Word} :
      Step image ⟨cpu, scheduler, false⟩ .other ⟨after, (taskUnblock id scheduler).2, false⟩
  | execute {machine : Machine} {after : Cpu} {current : TaskRef} {memory : Memory} :
      machine.system.scheduler.curTask = some current →
      OthersKept image machine.system.scheduler current memory →
        Step image machine .other
          ⟨after, machine.withMemory memory, machine.system.blocking⟩

/-! ## What a task is resumed with -/

/-- How a waiting task is to continue. -/
inductive Resumption where
  | interrupted (cpu : Cpu)
  | fresh (entry : Word)

/-- What an event leaves for a task; an exit leaves nothing, except for `idleTask`. -/
def Event.leaves (ref : TaskRef) : Event → Option (Option Resumption)
  | .interrupt kind outgoing cpu _ _ =>
      if outgoing = ref then some (if kind = .exit ∧ ref ≠ .idle then none else some (.interrupted cpu))
      else none
  | .create entry (some index) => if ref = .slot index then some (some (.fresh entry)) else none
  | _ => none

def initialResumption (image : TaskImage) : TaskRef → Option Resumption
  | .idle => some (.fresh image.idleTaskEntry)
  | .slot _ => none

def resumption (image : TaskImage) (ref : TaskRef) (history : List Event) : Option Resumption :=
  latest (Event.leaves ref) (initialResumption image ref) history

/-- The registers a task is resumed with are the ones it is to continue with. -/
def Resumes (image : TaskImage) (memory : Memory) (cpu : Cpu) : Resumption → Prop
  | .interrupted saved => cpu = saved
  | .fresh entry =>
      cpu.eip = entry ∧ cpu.cs = 0x08 ∧ cpu.eflags.getLsbD 9 = true ∧
      cpu.eax = 0 ∧ cpu.ecx = 0 ∧ cpu.edx = 0 ∧ cpu.ebx = 0 ∧ cpu.ebp = 0 ∧ cpu.esi = 0 ∧ cpu.edi = 0 ∧
      memory.load32 cpu.esp = image.taskExit ∧ (ret cpu memory).eip = image.taskExit

end NeilOS.Context
