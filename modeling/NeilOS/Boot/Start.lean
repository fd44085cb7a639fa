import NeilOS.Arch.Idt
import NeilOS.Foundation.Program
import NeilOS.Foundation.Registers

/-!
# From stage 2 to `kmain`

`jump_to_kernel` opens the address line A20, loads a descriptor table of its own and enters protected mode.
`_start` of the kernel loads the permanent table, clears `.bss`, sets up the first serial port and sends a
message over it. The message lacks its terminating zero, and what ends it is that `.bss` lies behind it and
has been cleared before.

Here are the processor with the serial port, the routines as programs over them, and the rules of the stack.
The processor checks every segment that is loaded against the descriptor table in memory and every access
against the limit of its segment. The stack is part of the memory, with the return addresses on it.
-/

namespace NeilOS.Start

open Foundation Program
open Arch (TableRegister Descriptor load64 marked)

/-! ## The processor and the serial port -/

inductive SegmentName where
  | cs | ds | es | fs | gs | ss
deriving DecidableEq

/-- A segment register with the part that the processor keeps of its descriptor. -/
structure Segment where
  selector : BitVec 16
  base : Word
  limit : ℕ
deriving DecidableEq

/-- A present segment of level 0: for `cs` a code segment, for the others a writable data segment. -/
def SegmentName.admits (access : Byte) : SegmentName → Bool
  | cs => access &&& 0xF8 == 0x98
  | _ => access &&& 0xFA == 0x92

/-- Bit 3 of the flags counts the limit in pages. -/
def Segment.ofDescriptor (selector : BitVec 16) (descriptor : Descriptor) : Segment where
  selector := selector
  base := descriptor.base
  limit :=
    if descriptor.flags.getLsbD 3 then descriptor.limit.toNat * 4096 + 4095 else descriptor.limit.toNat

def Segment.locate (segment : Segment) (offset : Word) (size : ℕ) : Option Word :=
  if offset.toNat + size ≤ segment.limit + 1 then some (segment.base + offset) else none

/-- The registers of a serial port. `empty` says that the last status read found the transmitter empty, and `sent`
are the bytes that the transmitter has taken; the clearing of its queue is left out. -/
structure Uart where
  interruptEnable : Byte
  divisorLow : Byte
  divisorHigh : Byte
  lineControl : Byte
  fifoControl : Byte
  modemControl : Byte
  empty : Bool
  sent : List Byte

/-- Bit 7 of the line control puts the divisor in the place of two other registers. A byte for a transmitter
that is not known to be empty is lost. -/
def Uart.write (port : BitVec 16) (value : Byte) (uart : Uart) : Uart :=
  if port = 0x3F8 then
    if uart.lineControl.getLsbD 7 then { uart with divisorLow := value }
    else if uart.empty then { uart with empty := false, sent := uart.sent ++ [value] }
    else uart
  else if port = 0x3F9 then
    if uart.lineControl.getLsbD 7 then { uart with divisorHigh := value }
    else { uart with interruptEnable := value }
  else if port = 0x3FA then { uart with fifoControl := value }
  else if port = 0x3FB then { uart with lineControl := value }
  else if port = 0x3FC then { uart with modemControl := value }
  else uart

structure Machine where
  memory : Memory
  segments : SegmentName → Segment
  gdtr : TableRegister
  cr0 : Word
  interrupts : Bool
  /-- Port `0x92`, with A20 in bit 1 and the reset line in bit 0. The addresses here are below 1 MiB, where A20
  makes no difference. -/
  systemControl : Byte
  uart : Uart
  /-- How often the status of the serial port has been read. -/
  reads : ℕ

inductive StartOp where
  | load (segment : SegmentName) (offset : Word)
  | store (segment : SegmentName) (offset : Word) (value : Byte)
  | load32 (segment : SegmentName) (offset : Word)
  | store32 (segment : SegmentName) (offset value : Word)
  | inb (port : BitVec 16)
  | outb (port : BitVec 16) (value : Byte)
  /-- In 16-bit code `lgdt` takes 24 bits of the base. -/
  | lgdt (segment : SegmentName) (offset : Word) (wide : Bool)
  | readCr0
  | writeCr0 (value : Word)
  /-- A `mov` to a segment register, or a far jump for `cs`. -/
  | loadSegment (name : SegmentName) (selector : BitVec 16)
  | cli

def StartOp.Answer : StartOp → Type
  | load _ _ => Byte
  | load32 _ _ => Word
  | inb _ => Byte
  | readCr0 => Word
  | _ => Unit

abbrev StartProgram := Program StartOp StartOp.Answer

namespace Machine

/-- The register after a load. In real mode the base comes from the selector. In protected mode the table is
consulted; the loading of null selectors and of segments of other levels than 0 is left out. -/
def segmentOf (name : SegmentName) (selector : BitVec 16) (machine : Machine) : Option Segment :=
  if machine.cr0.getLsbD 0 = false then
    some ⟨selector, selector.setWidth 32 <<< 4, (machine.segments name).limit⟩
  else
    let offset := selector &&& 0xFFF8
    if offset = 0 ∨ machine.gdtr.limit.toNat < offset.toNat + 7 then none
    else
      let descriptor := Descriptor.decode (load64 machine.memory (machine.gdtr.base + offset.setWidth 32))
      if name.admits descriptor.access then some (.ofDescriptor selector descriptor) else none

def withSegment (name : SegmentName) (segment : Segment) (machine : Machine) : Machine :=
  { machine with segments := fun other ↦ if other = name then segment else machine.segments other }

/-- The operand of `lgdt` at an address. -/
def tableAt (memory : Memory) (address : Word) (wide : Bool) : TableRegister where
  limit := memory (address + 1) ++ memory address
  base := if wide then memory.load32 (address + 2) else memory.load32 (address + 2) &&& 0xFFFFFF

def load (name : SegmentName) (offset : Word) (machine : Machine) : Option (Byte × Machine) :=
  ((machine.segments name).locate offset 1).map fun address ↦ (machine.memory address, machine)

def store (name : SegmentName) (offset : Word) (value : Byte) (machine : Machine) : Option (Unit × Machine) :=
  ((machine.segments name).locate offset 1).map fun address ↦
    ((), { machine with memory := machine.memory.store8 address value })

def load32 (name : SegmentName) (offset : Word) (machine : Machine) : Option (Word × Machine) :=
  ((machine.segments name).locate offset 4).map fun address ↦ (machine.memory.load32 address, machine)

def store32 (name : SegmentName) (offset value : Word) (machine : Machine) : Option (Unit × Machine) :=
  ((machine.segments name).locate offset 4).map fun address ↦
    ((), { machine with memory := machine.memory.store32 address value })

def lgdt (name : SegmentName) (offset : Word) (wide : Bool) (machine : Machine) : Option (Unit × Machine) :=
  ((machine.segments name).locate offset 6).map fun address ↦
    ((), { machine with gdtr := tableAt machine.memory address wide })

/-- In protected mode the processor sets the accessed bit of the descriptor that it loads. -/
def loadSegment (name : SegmentName) (selector : BitVec 16) (machine : Machine) : Option (Unit × Machine) :=
  (machine.segmentOf name selector).map fun segment ↦
    let loaded := machine.withSegment name segment
    if machine.cr0.getLsbD 0 = false then ((), loaded)
    else
      let offset := selector &&& 0xFFF8
      ((), { loaded with memory := marked machine.memory (machine.gdtr.base + offset.setWidth 32) })

/-- A read of the status of the serial port; other ports than this and `0x92` are left out. -/
def inb (status : ℕ → Byte) (port : BitVec 16) (machine : Machine) : Option (Byte × Machine) :=
  if port = 0x92 then some (machine.systemControl, machine)
  else if port = 0x3FD then
    some (status machine.reads, { machine with
      uart := { machine.uart with empty := (status machine.reads).getLsbD 5 }
      reads := machine.reads + 1 })
  else none

/-- Bit 0 of port `0x92` resets the machine. -/
def outb (port : BitVec 16) (value : Byte) (machine : Machine) : Option (Unit × Machine) :=
  if port = 0x92 then
    if value.getLsbD 0 then none else some ((), { machine with systemControl := value })
  else some ((), { machine with uart := machine.uart.write port value })

end Machine

def handle (status : ℕ → Byte) : Handler StartOp StartOp.Answer Machine
  | .load name offset, machine => machine.load name offset
  | .store name offset value, machine => machine.store name offset value
  | .load32 name offset, machine => machine.load32 name offset
  | .store32 name offset value, machine => machine.store32 name offset value
  | .inb port, machine => machine.inb status port
  | .outb port value, machine => machine.outb port value
  | .lgdt name offset wide, machine => machine.lgdt name offset wide
  | .readCr0, machine => some (machine.cr0, machine)
  | .writeCr0 value, machine => some ((), { machine with cr0 := value })
  | .loadSegment name selector, machine => machine.loadSegment name selector
  | .cli, machine => some ((), { machine with interrupts := false })

/-! ## The routines -/

/-- The addresses that the assembler and the linker give: the descriptor table of stage 2 with the offset of
its operand of `lgdt`, the symbols of the kernel, and the return addresses of the calls. -/
structure StartImage where
  gdtDescriptor : Word
  gdtStart : Word
  kernelGdtr : Word
  kernelGdt : Word
  msgKernel : Word
  bssStart : Word
  bssEnd : Word
  afterGdtFlush : Word
  afterSerialInit : Word
  afterSerialPutc : Word
  afterSerialPuts : Word
  hang : Word
  descriptor_le : gdtDescriptor.toNat + 6 ≤ 0x2000
  gdtStart_ge : 0x5000 ≤ gdtStart.toNat
  gdtStart_le : gdtStart.toNat + 24 ≤ 0x7000
  gdtr_ge : 0x9000 ≤ kernelGdtr.toNat
  gdtr_le : kernelGdtr.toNat + 6 ≤ bssStart.toNat
  gdt_ge : 0x9000 ≤ kernelGdt.toNat
  gdt_le : kernelGdt.toNat + 40 ≤ bssStart.toNat
  msg_ge : 0x9000 ≤ msgKernel.toNat
  msg_le : msgKernel.toNat + 17 ≤ bssStart.toNat
  msg_apart : kernelGdt.toNat + 40 ≤ msgKernel.toNat ∨ msgKernel.toNat + 17 ≤ kernelGdt.toNat
  bss_lt : bssStart.toNat < bssEnd.toNat
  bss_le : bssEnd.toNat ≤ 0x98000

/-- The general registers that the routines use. -/
structure Registers where
  eax : Register
  edx : Register
  esi : Word
  esp : Word

def load (segment : SegmentName) (offset : Word) : StartProgram Byte := perform (.load segment offset) result

def store (segment : SegmentName) (offset : Word) (value : Byte) : StartProgram Unit :=
  perform (.store segment offset value) result

def load32 (segment : SegmentName) (offset : Word) : StartProgram Word :=
  perform (.load32 segment offset) result

def store32 (segment : SegmentName) (offset value : Word) : StartProgram Unit :=
  perform (.store32 segment offset value) result

def inb (port : BitVec 16) : StartProgram Byte := perform (.inb port) result

def outb (port : BitVec 16) (value : Byte) : StartProgram Unit := perform (.outb port value) result

def lgdt (segment : SegmentName) (offset : Word) (wide : Bool) : StartProgram Unit :=
  perform (.lgdt segment offset wide) result

def readCr0 : StartProgram Word := perform .readCr0 result

def writeCr0 (value : Word) : StartProgram Unit := perform (.writeCr0 value) result

def loadSegment (name : SegmentName) (selector : BitVec 16) : StartProgram Unit :=
  perform (.loadSegment name selector) result

def cli : StartProgram Unit := perform .cli result

def loadData (selector : BitVec 16) : StartProgram Unit := do
  loadSegment .ds selector
  loadSegment .es selector
  loadSegment .fs selector
  loadSegment .gs selector
  loadSegment .ss selector

/-- `jump_to_kernel` and `protected_mode_entry`, with the stack pointer of the kernel's entry. -/
def jumpToKernel (image : StartImage) : StartProgram Word := do
  cli
  let al ← inb 0x92
  outb 0x92 (al ||| 0x02)
  lgdt .ds image.gdtDescriptor false
  let eax ← readCr0
  writeCr0 (eax ||| 0x01)
  loadSegment .cs 0x08
  loadData 0x10
  -- The word `0x0F50` on the screen.
  store .ds 0xB8000 0x50
  store .ds 0xB8001 0x0F
  return 0x9F000

def push (value : Word) (regs : Registers) : StartProgram Registers := do
  let regs := { regs with esp := regs.esp - 4 }
  store32 .ss regs.esp value
  return regs

def pop (regs : Registers) : StartProgram (Word × Registers) := do
  let value ← load32 .ss regs.esp
  return (value, { regs with esp := regs.esp + 4 })

/-- A call of a routine and its `ret`. A return to another address is left out. -/
def callNear (returnAddress : Word) (routine : Registers → StartProgram Registers) (regs : Registers) :
    StartProgram Registers := do
  let regs ← push returnAddress regs
  let regs ← routine regs
  let (target, regs) ← pop regs
  if target = returnAddress then return regs else .diverge

def gdtFlush (regs : Registers) : StartProgram Registers := do
  let eax ← load32 .ss (regs.esp + 4)
  lgdt .ds eax true
  let regs := { regs with eax := (Register.ofWord eax).setHalf 0x10 }
  loadData regs.eax.half
  loadSegment .cs 0x08
  return regs

/-- `rep stosb` with the direction flag clear. -/
def repStosb (al : Byte) : ℕ → Word → StartProgram Unit
  | 0, _ => pure ()
  | ecx + 1, edi => do
    store .es edi al
    repStosb al ecx (edi + 1)

/-- `mov dx, port`, `mov al, value`, `out dx, al`. -/
def outPort (port : BitVec 16) (value : Byte) (regs : Registers) : StartProgram Registers := do
  let regs := { regs with
    edx := regs.edx.setHalf port
    eax := { regs.eax with low := value } }
  outb regs.edx.half regs.eax.low
  return regs

def serialInit (regs : Registers) : StartProgram Registers := do
  let regs ← outPort 0x3F9 0x00 regs
  let regs ← outPort 0x3FB 0x80 regs
  let regs ← outPort 0x3F8 0x0C regs
  let regs ← outPort 0x3F9 0x00 regs
  let regs ← outPort 0x3FB 0x03 regs
  let regs ← outPort 0x3FA 0xC7 regs
  outPort 0x3FC 0x0B regs

/-- The loop `.wait`, which goes round until the transmitter is empty. -/
def awaitEmpty : ℕ → StartProgram Unit
  | 0 => .diverge
  | patience + 1 => do
    let al ← inb 0x3FD
    if al.getLsbD 5 then return () else awaitEmpty patience

/-- What the loop leaves in `AL` and `DX` is replaced by what was saved. -/
def serialPutc (patience : ℕ) (regs : Registers) : StartProgram Registers := do
  let regs ← push regs.eax.word regs
  let regs ← push regs.edx.word regs
  awaitEmpty patience
  let (edx, regs) ← pop regs
  let (eax, regs) ← pop regs
  let regs := { regs with eax := .ofWord eax, edx := (Register.ofWord edx).setHalf 0x3F8 }
  outb regs.edx.half regs.eax.low
  return regs

/-- The loop of `serial_puts`, over all addresses at most. -/
def serialPutsLoop (image : StartImage) (patience : ℕ) : ℕ → Registers → StartProgram Registers
  | 0, _ => .diverge
  | fuel + 1, regs => do
    let al ← load .ds regs.esi
    let regs := { regs with eax := { regs.eax with low := al }, esi := regs.esi + 1 }
    if al = 0 then return regs
    else
      let regs ← callNear image.afterSerialPutc (serialPutc patience) regs
      serialPutsLoop image patience fuel regs

def serialPuts (image : StartImage) (patience : ℕ) (regs : Registers) : StartProgram Registers := do
  let regs ← push regs.esi regs
  let regs ← push regs.eax.word regs
  let regs ← serialPutsLoop image patience (2 ^ 32) regs
  let (eax, regs) ← pop regs
  let (esi, regs) ← pop regs
  return { regs with eax := .ofWord eax, esi := esi }

/-- `_start` up to its own stack: the permanent descriptor table and the data segments. -/
def startTables (image : StartImage) (regs : Registers) : StartProgram Registers := do
  cli
  let regs ← push image.kernelGdtr regs
  let regs ← callNear image.afterGdtFlush gdtFlush regs
  let regs := { regs with esp := regs.esp + 4, eax := regs.eax.setHalf 0x10 }
  loadData regs.eax.half
  return regs

/-- `_start` up to the first instruction of `kmain`. -/
def start (image : StartImage) (patience : ℕ) (regs : Registers) : StartProgram Registers := do
  let regs ← startTables image regs
  let regs := { regs with esp := 0x9E000, eax := .ofWord 0 }
  repStosb 0 (image.bssEnd - image.bssStart).toNat image.bssStart
  let regs ← callNear image.afterSerialInit serialInit regs
  let regs := { regs with esi := image.msgKernel }
  let regs ← callNear image.afterSerialPuts (serialPuts image patience) regs
  push image.hang regs

/-! ## What a routine leaves alone -/

/-- Nothing has changed but bytes of a window and the serial port. -/
structure Kept (low high : ℕ) (before after : Machine) : Prop where
  memory : ∀ target : Word, ¬ (low ≤ target.toNat ∧ target.toNat < high) →
    after.memory target = before.memory target
  segments : after.segments = before.segments
  gdtr : after.gdtr = before.gdtr
  cr0 : after.cr0 = before.cr0
  interrupts : after.interrupts = before.interrupts
  systemControl : after.systemControl = before.systemControl

section Kept

variable {low high : ℕ} {first second third : Machine}

theorem Kept.refl (low high : ℕ) (machine : Machine) : Kept low high machine machine :=
  ⟨fun _ _ ↦ rfl, rfl, rfl, rfl, rfl, rfl⟩

theorem Kept.trans (h : Kept low high first second) (hnext : Kept low high second third) :
    Kept low high first third where
  memory target htarget := (hnext.memory target htarget).trans (h.memory target htarget)
  segments := hnext.segments.trans h.segments
  gdtr := hnext.gdtr.trans h.gdtr
  cr0 := hnext.cr0.trans h.cr0
  interrupts := hnext.interrupts.trans h.interrupts
  systemControl := hnext.systemControl.trans h.systemControl

theorem Kept.widen {lower higher : ℕ} (h : Kept low high first second) (hlow : lower ≤ low)
    (hhigh : high ≤ higher) : Kept lower higher first second where
  memory target htarget := h.memory target fun hinside ↦ htarget ⟨by omega, by omega⟩
  segments := h.segments
  gdtr := h.gdtr
  cr0 := h.cr0
  interrupts := h.interrupts
  systemControl := h.systemControl

/-- A push inside the window. -/
theorem Kept.push (h : Kept low high first second) (value : Word) {esp : Word} (hlow : low + 4 ≤ esp.toNat)
    (hhigh : esp.toNat ≤ high) :
    Kept low high first { second with memory := second.memory.store32 (esp - 4) value } where
  memory target htarget := (Memory.store32_of_outside (by bv_omega)).trans (h.memory target htarget)
  segments := h.segments
  gdtr := h.gdtr
  cr0 := h.cr0
  interrupts := h.interrupts
  systemControl := h.systemControl

/-- The serial port does not count. -/
theorem Kept.withUart (h : Kept low high first second) (uart : Uart) (reads : ℕ) :
    Kept low high first { second with uart := uart, reads := reads } :=
  ⟨h.memory, h.segments, h.gdtr, h.cr0, h.interrupts, h.systemControl⟩

theorem Kept.load32 (h : Kept low high first second) {address : Word} (haddress : address.toNat + 4 ≤ 2 ^ 32)
    (houtside : address.toNat + 4 ≤ low ∨ high ≤ address.toNat) :
    second.memory.load32 address = first.memory.load32 address :=
  Memory.load32_congr fun target htarget ↦ h.memory target (by bv_omega)

end Kept

/-- The descriptor that every data segment is loaded with covers all addresses. -/
def flat : Segment := ⟨0x10, 0, 0xFFFFFFFF⟩

def Flat (machine : Machine) : Prop := ∀ name, name ≠ .cs → machine.segments name = flat

theorem locate_flat {offset : Word} {size : ℕ} (h : offset.toNat + size ≤ 2 ^ 32) :
    flat.locate offset size = some offset := by
  have hlimit : offset.toNat + size ≤ 0xFFFFFFFF + 1 := h
  unfold Segment.locate flat
  rw [if_pos hlimit]
  exact congrArg some (BitVec.zero_add offset)

theorem Flat.kept {low high : ℕ} {before after : Machine} (h : Flat before) (hkept : Kept low high before after) :
    Flat after := by
  intro name hname
  rw [hkept.segments]
  exact h name hname

/-! ## The stack -/

section Stack

variable {status : ℕ → Byte} {machine : Machine} {regs : Registers}

theorem exec_push (hflat : Flat machine) (hesp : 4 ≤ regs.esp.toNat) (value : Word) :
    exec (handle status) (push value regs) machine = some ({ regs with esp := regs.esp - 4 },
      { machine with memory := machine.memory.store32 (regs.esp - 4) value }) := by
  have hstore : exec (handle status) (store32 .ss (regs.esp - 4) value) machine =
      some ((), { machine with memory := machine.memory.store32 (regs.esp - 4) value }) := by
    refine (Option.bind_fun_some _).trans ?_
    change machine.store32 .ss (regs.esp - 4) value = _
    rw [Machine.store32, hflat .ss (by decide), locate_flat (by bv_omega), Option.map_some]
  rw [push, exec_bind, hstore]
  rfl

/-- The first of two pushed words is above the second. -/
theorem load32_pushed (memory : Memory) {esp : Word} (first second : Word) (hesp : 8 ≤ esp.toNat) :
    ((memory.store32 (esp - 4) first).store32 (esp - 4 - 4) second).load32 (esp - 4 - 4 + 4) = first := by
  have haddress : esp - 4 - 4 + 4 = esp - 4 := by bv_omega
  have hapart : Memory.Apart (esp - 4 - 4) (esp - 4) :=
    Memory.apart_of_toNat (by bv_omega) (by bv_omega) (by bv_omega)
  rw [haddress, Memory.load32_store32_of_apart hapart, Memory.load32_store32]

theorem exec_load32 (hflat : Flat machine) {offset : Word} (hoffset : offset.toNat + 4 ≤ 2 ^ 32) :
    exec (handle status) (load32 .ss offset) machine = some (machine.memory.load32 offset, machine) := by
  refine (Option.bind_fun_some _).trans ?_
  change machine.load32 .ss offset = _
  rw [Machine.load32, hflat .ss (by decide), locate_flat hoffset, Option.map_some]

theorem exec_load (hflat : Flat machine) (offset : Word) :
    exec (handle status) (load .ds offset) machine = some (machine.memory offset, machine) := by
  refine (Option.bind_fun_some _).trans ?_
  change machine.load .ds offset = _
  rw [Machine.load, hflat .ds (by decide), locate_flat (by bv_omega), Option.map_some]

theorem exec_store (hflat : Flat machine) {name : SegmentName} (hname : name ≠ .cs) (offset : Word) (value : Byte) :
    exec (handle status) (store name offset value) machine =
      some ((), { machine with memory := machine.memory.store8 offset value }) := by
  refine (Option.bind_fun_some _).trans ?_
  change machine.store name offset value = _
  rw [Machine.store, hflat name hname, locate_flat (by bv_omega), Option.map_some]

theorem exec_pop (hflat : Flat machine) (hesp : regs.esp.toNat + 4 ≤ 2 ^ 32) :
    exec (handle status) (pop regs) machine =
      some ((machine.memory.load32 regs.esp, { regs with esp := regs.esp + 4 }), machine) := by
  rw [pop, exec_bind, exec_load32 hflat hesp]
  rfl

/-- A routine that keeps the return address and the depth of the stack comes back. -/
theorem exec_callNear {returnAddress : Word} {routine : Registers → StartProgram Registers}
    {inner : Registers} {after : Machine} (hflat : Flat machine) (hesp : 4 ≤ regs.esp.toNat)
    (hroutine : exec (handle status) (routine { regs with esp := regs.esp - 4 })
      { machine with memory := machine.memory.store32 (regs.esp - 4) returnAddress } = some (inner, after))
    (hdepth : inner.esp = regs.esp - 4) (hafter : Flat after)
    (hkept : after.memory.load32 (regs.esp - 4) = returnAddress) :
    exec (handle status) (callNear returnAddress routine regs) machine =
      some ({ inner with esp := regs.esp }, after) := by
  have hback : inner.esp + 4 = regs.esp := by
    rw [hdepth]
    bv_omega
  have hroom : inner.esp.toNat + 4 ≤ 2 ^ 32 := by
    rw [hdepth]
    bv_omega
  rw [callNear, exec_bind, exec_push hflat hesp, Option.bind_some, exec_bind]
  dsimp only
  rw [hroutine, Option.bind_some, exec_bind]
  dsimp only
  rw [exec_pop hafter hroom, Option.bind_some]
  dsimp only
  rw [hdepth, hkept, if_pos rfl, ← hdepth, hback]
  rfl

end Stack

end NeilOS.Start
