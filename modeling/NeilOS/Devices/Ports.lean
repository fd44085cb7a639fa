import NeilOS.Foundation.Trace
import NeilOS.Vga.Screen

/-!
# Ports and interrupt commands

The drivers reach their devices by `inb` and `outb`. A device answers what it likes: `inputs` gives
the value of every read of a call, by its number and its port. The calls of the terminal's interface
are operations as well, so that the trace of a handler shows what it puts on the screen.
-/

namespace NeilOS

open Foundation Program

namespace Devices

inductive DeviceOp where
  | inb (port : BitVec 16)
  | outb (port : BitVec 16) (value : Byte)
  | vga (call : VgaCall)

def DeviceOp.Answer : DeviceOp → Type
  | .inb _ => Byte
  | .outb _ _ => Unit
  | .vga _ => Unit

abbrev DeviceProgram := Program DeviceOp DeviceOp.Answer

/-- The value of a read, by the number of reads before it and its port. -/
abbrev Inputs := ℕ → BitVec 16 → Byte

def inb (port : BitVec 16) : DeviceProgram Byte := call (DeviceOp.inb port)

def outb (port : BitVec 16) (value : Byte) : DeviceProgram Unit := call (DeviceOp.outb port value)

def vga (vgaCall : VgaCall) : DeviceProgram Unit := call (DeviceOp.vga vgaCall)

/-- The state is the number of reads so far. -/
def handle (inputs : Inputs) : Handler DeviceOp DeviceOp.Answer ℕ
  | .inb port, reads => some (inputs reads port, reads + 1)
  | .outb _ _, reads => some ((), reads)
  | .vga _, reads => some ((), reads)

/-! ## The interrupt controllers -/

/-- Writing `PIC_EOI` to `PIC2_COMMAND` for the slave's lines and to `PIC1_COMMAND` for all. -/
def picSendEoi (irq : Byte) : DeviceProgram Unit := do
  if 8 ≤ irq.toNat then outb 0xA0 0x20
  outb 0x20 0x20

inductive Pic where
  | master
  | slave
  deriving DecidableEq

namespace DeviceOp

/-- The controller an operation sends an end-of-interrupt command to. -/
def eoi : DeviceOp → Option Pic
  | .outb port value =>
    if port = 0x20 ∧ value = 0x20 then some .master
    else if port = 0xA0 ∧ value = 0x20 then some .slave
    else none
  | _ => none

/-- What an operation does on the screen. -/
def screenCall : DeviceOp → Option VgaCall
  | .vga call => some call
  | _ => none

end DeviceOp

section Rules

variable {inputs : Inputs}

theorem performs_inb (port : BitVec 16) (reads : ℕ) :
    Performs (handle inputs) (inb port) reads [.inb port] (inputs reads port) (reads + 1) :=
  performs_call rfl

theorem performs_outb (port : BitVec 16) (value : Byte) (reads : ℕ) :
    Performs (handle inputs) (outb port value) reads [.outb port value] () reads :=
  performs_call rfl

theorem performs_vga (vgaCall : VgaCall) (reads : ℕ) :
    Performs (handle inputs) (vga vgaCall) reads [.vga vgaCall] () reads :=
  performs_call rfl

@[simp]
theorem meets_inb (port : BitVec 16) (reads : ℕ) {guarantee : ℕ → DeviceOp → Prop}
    {post : Byte → ℕ → Prop} :
    Meets (handle inputs) guarantee (inb port) reads post ↔
      guarantee reads (.inb port) ∧ post (inputs reads port) (reads + 1) := by
  simp [inb, call, Meets, handle]

@[simp]
theorem meets_outb (port : BitVec 16) (value : Byte) (reads : ℕ) {guarantee : ℕ → DeviceOp → Prop}
    {post : Unit → ℕ → Prop} :
    Meets (handle inputs) guarantee (outb port value) reads post ↔
      guarantee reads (.outb port value) ∧ post () reads := by
  simp [outb, call, Meets, handle]

/-- One command to the master, after one to the slave for the lines of the slave. -/
theorem performs_picSendEoi (irq : Byte) (reads : ℕ) :
    Performs (handle inputs) (picSendEoi irq) reads
      (if 8 ≤ irq.toNat then [.outb 0xA0 0x20, .outb 0x20 0x20] else [.outb 0x20 0x20]) () reads := by
  unfold picSendEoi
  split_ifs with hslave
  · exact (performs_outb 0xA0 0x20 reads).bind (performs_outb 0x20 0x20 reads)
  · exact performs_outb 0x20 0x20 reads

end Rules

end Devices

end NeilOS
