import NeilOS.Context.Model
import NeilOS.Devices.Decoder
import NeilOS.Devices.Timer
import Mathlib.Data.Finset.Max
import Mathlib.Order.Fin.Basic

/-!
# Interrupts and the end-of-interrupt commands

`interrupt_handler` with all its vectors, over the variables of the keyboard driver, the timer and the
scheduler. A controller keeps the lines in service, and a non-specific end-of-interrupt command ends
the one of the highest priority. `keyboard_handler` sends the command itself and `interrupt_handler`
sends it once more.
-/

namespace NeilOS

open Foundation Program

namespace Devices

/-! ## The handler -/

/-- The variables that the handlers keep between interrupts. -/
structure Kernel where
  keyboard : Keyboard
  ticks : Word
  scheduler : Scheduler

/-- The line written for a vector that is only reported. -/
def report : ℕ → String
  | 0 => "EXCEPTION: DIVIDE BY ZERO\n"
  | 1 => "EXCEPTION: DEBUG\n"
  | 2 => "EXCEPTION: NMI\n"
  | 3 => "EXCEPTION: BREAKPOINT\n"
  | 4 => "EXCEPTION: OVERFLOW\n"
  | 5 => "EXCEPTION: BOUND RANGE EXCEEDED\n"
  | 6 => "EXCEPTION: INVALID OPCODE\n"
  | 7 => "EXCEPTION: DEVICE NOT AVAILABLE\n"
  | 8 => "EXCEPTION: DOUBLE FAULT\n"
  | 9 => "EXCEPTION: COPROCESSOR SEGMENT OVERRUN\n"
  | 10 => "EXCEPTION: INVALID TSS\n"
  | 11 => "EXCEPTION: SEGMENT NOT PRESENT\n"
  | 12 => "EXCEPTION: STACK-SEGMENT FAULT\n"
  | 13 => "EXCEPTION: GENERAL PROTECTION FAULT\n"
  | 14 => "EXCEPTION: PAGE FAULT\n"
  | 16 => "EXCEPTION: x87 FLOATING-POINT\n"
  | 17 => "EXCEPTION: ALIGNMENT CHECK\n"
  | 18 => "EXCEPTION: MACHINE CHECK\n"
  | 19 => "EXCEPTION: SIMD FLOATING-POINT\n"
  | 20 => "EXCEPTION: VIRTUALIZATION\n"
  | 21 => "EXCEPTION: CONTROL PROTECTION\n"
  | 28 => "EXCEPTION: HYPERVISOR INJECTION\n"
  | 29 => "EXCEPTION: VMM COMMUNICATION\n"
  | 30 => "EXCEPTION: SECURITY\n"
  | _ => "UNKNOWN INTERRUPT\n"

/-- The dispatch on `regs->int_no`, with the frame that is returned to. -/
def interruptHandler (regs : Word) (kernel : Kernel) : DeviceProgram (Word × Kernel) :=
  let number := kernel.scheduler.memory.load32 (regs + 32)
  if number = 32 then do
    let ticks := pitTick kernel.ticks
    picSendEoi 0
    let result := Scheduler.schedulerTick regs kernel.scheduler
    pure (result.1, { kernel with ticks := ticks, scheduler := result.2 })
  else if number = 33 then do
    let keyboard ← keyboardHandler kernel.keyboard
    picSendEoi 1
    pure (regs, { kernel with keyboard := keyboard })
  else if number = 49 then
    let result := Scheduler.schedulerSchedule regs kernel.scheduler
    pure (result.1, { kernel with scheduler := result.2 })
  else if number = 50 then
    let result := Scheduler.schedulerExit regs kernel.scheduler
    pure (result.1, { kernel with scheduler := result.2 })
  else if 34 ≤ number.toNat ∧ number.toNat ≤ 47 then do
    picSendEoi ((number - 32).setWidth 8)
    pure (regs, kernel)
  else do
    vga (.write ((report number.toNat).toList.map Terminal.ascii))
    pure (regs, kernel)

/-! ## The commands of a call -/

/-- The program returns, and these are the commands it sends. -/
def Commands {α : Type} (inputs : Inputs) (program : DeviceProgram α) (reads : ℕ)
    (commands : List Pic) (value : α) (after : ℕ) : Prop :=
  ∃ ops, Performs (handle inputs) program reads ops value after ∧
    ops.filterMap DeviceOp.eoi = commands

section Commands

variable {inputs : Inputs} {reads after : ℕ} {α β : Type}

theorem Commands.bind {program : DeviceProgram α} {next : α → DeviceProgram β} {middle : ℕ}
    {first second : List Pic} {value : α} {other : β}
    (h : Commands inputs program reads first value middle)
    (hnext : Commands inputs (next value) middle second other after) :
    Commands inputs (program >>= next) reads (first ++ second) other after := by
  obtain ⟨ops, hperforms, hcommands⟩ := h
  obtain ⟨rest, hrest, hrestCommands⟩ := hnext
  refine ⟨ops ++ rest, hperforms.bind hrest, ?_⟩
  rw [List.filterMap_append, hcommands, hrestCommands]

theorem commands_pure (value : α) : Commands inputs (pure value) reads [] value reads :=
  ⟨[], performs_pure value reads, rfl⟩

theorem Commands.map {program : DeviceProgram α} {commands : List Pic} {value : α}
    (h : Commands inputs program reads commands value after) (f : α → β) :
    Commands inputs (program >>= fun value ↦ pure (f value)) reads commands (f value) after := by
  obtain ⟨ops, hperforms, hcommands⟩ := h
  exact ⟨ops, hperforms.map f, hcommands⟩

theorem commands_picSendEoi (irq : Byte) :
    Commands inputs (picSendEoi irq) reads
      (if 8 ≤ irq.toNat then [.slave, .master] else [.master]) () reads := by
  refine ⟨_, performs_picSendEoi irq reads, ?_⟩
  split_ifs <;> rfl

theorem commands_keyboardHandler (keyboard : Keyboard) :
    ∃ value after, Commands inputs (keyboardHandler keyboard) reads [.master] value after := by
  obtain ⟨ops, after, hperforms, -, hcommands⟩ := keyboardHandler_handles inputs keyboard reads
  exact ⟨_, after, ops, hperforms, hcommands⟩

end Commands

/-- The commands that a call sends, by its vector. -/
def vectorCommands (number : Word) : List Pic :=
  if number = 33 then [.master, .master]
  else if 32 ≤ number.toNat ∧ number.toNat ≤ 39 then [.master]
  else if 40 ≤ number.toNat ∧ number.toNat ≤ 47 then [.slave, .master]
  else []

theorem vectorCommands_line {number : Word} (hlow : 34 ≤ number.toNat) (hhigh : number.toNat ≤ 47) :
    vectorCommands number =
      if 8 ≤ ((number - 32).setWidth 8).toNat then [.slave, .master] else [.master] := by
  have hline : ((number - 32).setWidth 8).toNat = number.toNat - 32 := by
    have hbase : (32 : Word).toNat = 32 := rfl
    rw [BitVec.toNat_setWidth, BitVec.toNat_sub]
    omega
  have hother : number ≠ 33 := by
    rintro rfl
    exact absurd hlow (by decide)
  unfold vectorCommands
  rw [hline, if_neg hother]
  split_ifs <;> first | rfl | omega

theorem vectorCommands_other {number : Word} (h : ¬ (32 ≤ number.toNat ∧ number.toNat ≤ 47)) :
    vectorCommands number = [] := by
  have hother : number ≠ 33 := by
    rintro rfl
    exact h (by decide)
  unfold vectorCommands
  rw [if_neg hother, if_neg (by omega), if_neg (by omega)]

/-- A call of `interrupt_handler`, in every state: it returns, the commands are those of the vector,
and the frame and the scheduler are those of the dispatch to the scheduler. -/
theorem interruptHandler_commands (inputs : Inputs) (regs : Word) (kernel : Kernel) :
    ∃ value after,
      Commands inputs (interruptHandler regs kernel) 0
        (vectorCommands (kernel.scheduler.memory.load32 (regs + 32))) value after ∧
      (value.1, value.2.scheduler) = Context.interruptHandler regs kernel.scheduler := by
  unfold interruptHandler Context.interruptHandler
  dsimp only
  generalize kernel.scheduler.memory.load32 (regs + 32) = number
  by_cases htick : number = 32
  · rw [if_pos htick, if_pos htick, htick]
    exact ⟨_, _, (commands_picSendEoi 0).map _, rfl⟩
  rw [if_neg htick, if_neg htick]
  by_cases hkeyboard : number = 33
  · rw [if_pos hkeyboard, hkeyboard]
    obtain ⟨keyboard, after, hcommands⟩ := commands_keyboardHandler kernel.keyboard
    exact ⟨_, after, hcommands.bind ((commands_picSendEoi 1).map _), rfl⟩
  rw [if_neg hkeyboard]
  by_cases hyield : number = 49
  · rw [if_pos hyield, if_pos hyield, hyield]
    exact ⟨_, _, commands_pure _, rfl⟩
  rw [if_neg hyield, if_neg hyield]
  by_cases hexit : number = 50
  · rw [if_pos hexit, if_pos hexit, hexit]
    exact ⟨_, _, commands_pure _, rfl⟩
  rw [if_neg hexit, if_neg hexit]
  by_cases hline : 34 ≤ number.toNat ∧ number.toNat ≤ 47
  · rw [if_pos hline, vectorCommands_line hline.1 hline.2]
    exact ⟨_, _, (commands_picSendEoi _).map _, rfl⟩
  · have hnotTick : number.toNat ≠ 32 := fun h ↦ htick (BitVec.eq_of_toNat_eq h)
    have hnotKeyboard : number.toNat ≠ 33 := fun h ↦ hkeyboard (BitVec.eq_of_toNat_eq h)
    have hother : ¬ (32 ≤ number.toNat ∧ number.toNat ≤ 47) := by omega
    rw [if_neg hline, vectorCommands_other hother]
    exact ⟨_, _, ⟨_, (performs_vga _ 0).map _, rfl⟩, rfl⟩

/-! ## The controllers -/

/-- The lines in service at the two controllers; a smaller line has a higher priority. -/
structure Pics where
  master : Finset (Fin 8)
  slave : Finset (Fin 8)
deriving DecidableEq

namespace Pics

def idle : Pics := ⟨∅, ∅⟩

/-- An interrupt is taken. The slave is connected to line 2 of the master. -/
def accept (irq : Fin 16) (pics : Pics) : Pics :=
  if h : irq.val < 8 then { pics with master := insert ⟨irq.val, h⟩ pics.master }
  else ⟨insert 2 pics.master, insert ⟨irq.val - 8, by omega⟩ pics.slave⟩

/-- The non-specific command; there is nothing to end if no line is in service. -/
def endHighest (inService : Finset (Fin 8)) : Option (Finset (Fin 8)) :=
  if h : inService.Nonempty then some (inService.erase (inService.min' h)) else none

def command (pics : Pics) : Pic → Option Pics
  | .master => (endHighest pics.master).map fun master ↦ { pics with master := master }
  | .slave => (endHighest pics.slave).map fun slave ↦ { pics with slave := slave }

/-- A list of commands; `none` when one comes with no line in service. -/
def commandAll : List Pic → Pics → Option Pics
  | [], pics => some pics
  | pic :: later, pics => (pics.command pic).bind (commandAll later)

end Pics

/-- A hardware interrupt together with the state it is handled in and what the ports answer. -/
structure Delivery where
  irq : Fin 16
  regs : Word
  kernel : Kernel
  inputs : Inputs
  number : kernel.scheduler.memory.load32 (regs + 32) = BitVec.ofNat 32 (32 + irq.val)

namespace Delivery

/-- The commands that the handler sends. -/
def commands (delivery : Delivery) : List Pic :=
  (trace (handle delivery.inputs) (interruptHandler delivery.regs delivery.kernel) 0).filterMap
    DeviceOp.eoi

theorem returns (delivery : Delivery) : ∃ result reads,
    exec (handle delivery.inputs) (interruptHandler delivery.regs delivery.kernel) 0 =
      some (result, reads) := by
  obtain ⟨result, reads, ⟨_, hperforms, -⟩, -⟩ :=
    interruptHandler_commands delivery.inputs delivery.regs delivery.kernel
  exact ⟨result, reads, hperforms.exec_eq⟩

theorem commands_eq (delivery : Delivery) :
    delivery.commands = vectorCommands (BitVec.ofNat 32 (32 + delivery.irq.val)) := by
  obtain ⟨_, _, ⟨_, hperforms, hcommands⟩, -⟩ :=
    interruptHandler_commands delivery.inputs delivery.regs delivery.kernel
  rw [commands, hperforms.trace_eq, hcommands, delivery.number]

end Delivery

/-- A sequence of interrupts, oldest first. The gates are interrupt gates, so each is handled to its end
before the next is taken. -/
def serve : List Delivery → Pics → Option Pics
  | [], pics => some pics
  | delivery :: later, pics =>
    ((pics.accept delivery.irq).commandAll delivery.commands).bind (serve later)

/-- What one interrupt does to idle controllers. -/
theorem commandAll_idle : ∀ irq : Fin 16,
    (Pics.idle.accept irq).commandAll (vectorCommands (BitVec.ofNat 32 (32 + irq.val))) =
      if irq = 1 then none else some Pics.idle := by
  decide

theorem serve_cons_idle (delivery : Delivery) (later : List Delivery) :
    serve (delivery :: later) Pics.idle =
      if delivery.irq = 1 then none else serve later Pics.idle := by
  rw [serve, delivery.commands_eq, commandAll_idle]
  split_ifs <;> rfl

theorem serve_isSome_iff (deliveries : List Delivery) :
    (serve deliveries Pics.idle).isSome ↔ ∀ delivery ∈ deliveries, delivery.irq ≠ 1 := by
  induction deliveries with
  | nil => exact iff_of_true rfl fun _ hmem ↦ absurd hmem List.not_mem_nil
  | cons delivery later ih =>
    rw [serve_cons_idle, List.forall_mem_cons, ← ih]
    by_cases hkeyboard : delivery.irq = 1
    · rw [if_pos hkeyboard]
      exact iff_of_false Bool.false_ne_true fun h ↦ h.1 hkeyboard
    · rw [if_neg hkeyboard]
      exact (and_iff_right hkeyboard).symm

theorem count_vectorCommands : ∀ irq : Fin 16,
    ((vectorCommands (BitVec.ofNat 32 (32 + irq.val))).count .master = 1 ∧
      (vectorCommands (BitVec.ofNat 32 (32 + irq.val))).count .slave = if 8 ≤ irq.val then 1 else 0) ↔
        irq ≠ 1 := by
  decide

/-- **End of interrupt.** In every state a hardware interrupt is handled to its end, and it sends the
master one command and the slave one for its own lines just when it is not the keyboard's. A sequence
of interrupts sends no command with nothing in service just when none of them is the keyboard's. -/
theorem end_of_interrupt_iff (delivery : Delivery) (deliveries : List Delivery) :
    (∃ result reads,
      exec (handle delivery.inputs) (interruptHandler delivery.regs delivery.kernel) 0 =
        some (result, reads)) ∧
    ((delivery.commands.count .master = 1 ∧
      delivery.commands.count .slave = if 8 ≤ delivery.irq.val then 1 else 0) ↔ delivery.irq ≠ 1) ∧
    ((serve deliveries Pics.idle).isSome ↔ ∀ delivery ∈ deliveries, delivery.irq ≠ 1) := by
  refine ⟨delivery.returns, ?_, serve_isSome_iff deliveries⟩
  rw [delivery.commands_eq]
  exact count_vectorCommands delivery.irq

/-- One keyboard interrupt: the second command comes with nothing in service. -/
theorem keyboard_ends_twice :
    ∃ delivery : Delivery, delivery.irq = 1 ∧ delivery.commands = [.master, .master] ∧
      serve [delivery] Pics.idle = none := by
  let scheduler : Scheduler :=
    { tasks := fun _ ↦ ⟨0, 0, .terminated⟩
      idleTask := ⟨0, 0, .running⟩
      curTask := some .idle
      nextTaskID := 1
      schedulerTicks := 0
      memory := fun address ↦ if address = 32 then 33 else 0 }
  let delivery : Delivery := ⟨1, 0, ⟨.booted, 0, scheduler⟩, fun _ _ ↦ 0x1E, by decide⟩
  refine ⟨delivery, rfl, ?_, ?_⟩
  · rw [delivery.commands_eq]
    rfl
  · rw [serve_cons_idle]
    rfl

end Devices

end NeilOS
