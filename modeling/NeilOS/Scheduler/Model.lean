import NeilOS.Foundation.Stack
import NeilOS.Physical.Model

/-!
# The scheduler

The static variables of `scheduler.c` are one record, together with the memory that holds the task
stacks. A pointer to a task is a `TaskRef`: an entry of `tasks[]` or the separate `idleTask`. The
functions return the value of the source function and the new record; `irq_save` and `irq_restore`
only make them atomic with respect to the interrupt handlers.
-/

namespace NeilOS

open Foundation

/-- What the linker fixes about the scheduler's stacks and entry points. -/
structure TaskImage extends Image where
  taskStacks : Word
  idleStack : Word
  taskExit : Word
  idleTaskEntry : Word
  stacks_ge : 0x9000 ≤ taskStacks.toNat
  stacks_le : taskStacks.toNat + 15 * 4096 ≤ kernelEnd.toNat
  idle_ge : 0x9000 ≤ idleStack.toNat
  idle_le : idleStack.toNat + 4096 ≤ kernelEnd.toNat
  apart : taskStacks.toNat + 15 * 4096 ≤ idleStack.toNat ∨
    idleStack.toNat + 4096 ≤ taskStacks.toNat

inductive TaskState where
  | ready
  | running
  | blocked
  | terminated
deriving DecidableEq

structure Task where
  id : Word
  esp : Word
  state : TaskState

inductive TaskRef where
  | slot (index : Fin 16)
  | idle
deriving DecidableEq

structure Scheduler where
  tasks : Fin 16 → Task
  idleTask : Task
  curTask : Option TaskRef
  nextTaskID : Word
  schedulerTicks : Word
  memory : Memory

namespace Scheduler

/-- `MAX_USER_TASKS`. -/
def maxUserTasks : Word := 15

/-- `TIME_SLICE_MS`. -/
def timeSliceMs : Word := 10

def task (scheduler : Scheduler) : TaskRef → Task
  | .slot index => scheduler.tasks index
  | .idle => scheduler.idleTask

def modify (scheduler : Scheduler) (ref : TaskRef) (change : Task → Task) : Scheduler :=
  match ref with
  | .slot index =>
      { scheduler with tasks := Function.update scheduler.tasks index (change (scheduler.tasks index)) }
  | .idle => { scheduler with idleTask := change scheduler.idleTask }

/-- The words `task_create_context` pushes, in the order of the source. -/
def contextWords (image : TaskImage) (entry : Word) : List Word :=
  [image.taskExit, 0x202, 0x08, entry, 0, 32, 0, 0, 0, 0, 0, 0, 0, 0]

/-- Returns the stack pointer of the frame it builds. -/
def taskCreateContext (image : TaskImage) (stack entry : Word) (memory : Memory) : Word × Memory :=
  Stack.pushAll (contextWords image entry) (stack + 4096, memory)

def schedulerInit (image : TaskImage) (scheduler : Scheduler) : Scheduler :=
  let context := taskCreateContext image image.idleStack image.idleTaskEntry scheduler.memory
  { tasks := fun index ↦ ⟨0, 0, if index = 0 then .running else .terminated⟩
    idleTask := ⟨0xFFFFFFFF, context.1, .ready⟩
    curTask := some (.slot 0)
    nextTaskID := 1
    schedulerTicks := 0
    memory := context.2 }

/-- The first terminated entry of `tasks[1..15]`. -/
def terminatedSlot (scheduler : Scheduler) : Option (Fin 16) :=
  ((List.range' 1 15).find? fun index ↦
    (scheduler.tasks (Fin.ofNat 16 index)).state = .terminated).map (Fin.ofNat 16)

/-- `taskStacks[number]`. -/
def taskStack (image : TaskImage) (number : Word) : Word := image.taskStacks + 4096 * number

def taskCreate (image : TaskImage) (entry : Word) (scheduler : Scheduler) : ℤ × Scheduler :=
  if entry = 0 then (-1, scheduler)
  else
    match scheduler.terminatedSlot with
    | none => (-1, scheduler)
    | some index =>
        -- Only a brand new task gets a fresh id.
        let scheduler :=
          if (scheduler.tasks index).id = 0 then
            { scheduler.modify (.slot index) fun task ↦ { task with id := scheduler.nextTaskID } with
              nextTaskID := scheduler.nextTaskID + 1 }
          else scheduler
        let id := (scheduler.tasks index).id
        if maxUserTasks ≤ id - 1 then (-1, scheduler)
        else
          let context := taskCreateContext image (taskStack image (id - 1)) entry scheduler.memory
          (id.toInt,
            { scheduler.modify (.slot index) fun task ↦ { task with esp := context.1, state := .ready } with
              memory := context.2 })

/-- The store in `task_block`; the yield that follows is a separate step. -/
def taskBlock (scheduler : Scheduler) : Scheduler :=
  match scheduler.curTask with
  | none => scheduler
  | some ref => scheduler.modify ref fun task ↦ { task with state := .blocked }

def taskUnblock (id : Word) (scheduler : Scheduler) : ℤ × Scheduler :=
  match (List.range' 1 15).find? fun index ↦
    (scheduler.tasks (Fin.ofNat 16 index)).id = id ∧
      (scheduler.tasks (Fin.ofNat 16 index)).state = .blocked with
  | none => (-1, scheduler)
  | some index =>
      (0, scheduler.modify (.slot (Fin.ofNat 16 index)) fun task ↦ { task with state := .ready })

/-! ## The scheduling decision -/

/-- Save the stack pointer of the current task, and demote it if it was running. -/
def demote (current : TaskRef) (regs : Word) (scheduler : Scheduler) : Scheduler :=
  scheduler.modify current fun task ↦
    { task with esp := regs, state := if task.state = .running then .ready else task.state }

/-- The index of the current task; the search leaves it at 0 for `idleTask`. -/
def currentIndex : TaskRef → ℕ
  | .slot index => index
  | .idle => 0

/-- The round-robin search, with its two fallbacks. -/
def pick (current : TaskRef) (scheduler : Scheduler) : TaskRef :=
  match (List.range' 1 16).find? fun offset ↦
    (scheduler.tasks (Fin.ofNat 16 (currentIndex current + offset))).state = .ready with
  | some offset => .slot (Fin.ofNat 16 (currentIndex current + offset))
  | none => if (scheduler.task current).state = .ready then current else .idle

/-- Make a task the running one and return its saved stack pointer. -/
def select (next : TaskRef) (scheduler : Scheduler) : Word × Scheduler :=
  let scheduler :=
    { scheduler.modify next fun task ↦ { task with state := .running } with
      curTask := some next
      schedulerTicks := 0 }
  ((scheduler.task next).esp, scheduler)

def schedulerSchedule (regs : Word) (scheduler : Scheduler) : Word × Scheduler :=
  match scheduler.curTask with
  | none => (regs, scheduler)
  | some current =>
      if regs = 0 then (regs, scheduler)
      else
        let demoted := scheduler.demote current regs
        demoted.select (demoted.pick current)

def schedulerTick (regs : Word) (scheduler : Scheduler) : Word × Scheduler :=
  let scheduler := { scheduler with schedulerTicks := scheduler.schedulerTicks + 1 }
  if scheduler.schedulerTicks < timeSliceMs then (regs, scheduler)
  else schedulerSchedule regs { scheduler with schedulerTicks := 0 }

def schedulerExit (regs : Word) (scheduler : Scheduler) : Word × Scheduler :=
  match scheduler.curTask with
  | none => (regs, scheduler)
  | some current =>
      if regs = 0 then (regs, scheduler)
      else schedulerSchedule regs
        (scheduler.modify current fun task ↦ { task with state := .terminated })

/-! ## The stack areas -/

/-- The bytes from `low` up to `high`. -/
structure Region where
  low : ℕ
  high : ℕ

/-- The kernel task keeps the stack `main.asm` sets up; the others have theirs by id. -/
def stackOf (image : TaskImage) (scheduler : Scheduler) : TaskRef → Region
  | .idle => ⟨image.idleStack.toNat, image.idleStack.toNat + 4096⟩
  | .slot index =>
      if index = 0 then ⟨0x98000, 0x9E000⟩
      else
        let stack := taskStack image ((scheduler.tasks index).id - 1)
        ⟨stack.toNat, stack.toNat + 4096⟩

end Scheduler

end NeilOS
