import NeilOS.Disk.Chs
import NeilOS.Foundation.Stack
import NeilOS.Loader.Model

/-!
# The disk services of the BIOS

`disk_get_params` and `disk_read_sector` are modelled instruction by instruction over `INT 13h`, with what
they push, pop and return to. The first asks for the geometry and keeps it in two variables; the second
converts a block address and attempts a read up to three times, with a reset after each failure.

A `Bios` is the firmware with the drive behind it. It decides which attempts fail, what it leaves in `AX`
and what a failing read leaves in its own buffer; everything else of the memory a read leaves alone. On the
stack an interrupt may use what is below the stack pointer.

The stack is a memory of its own: the model is about calls at which it lies apart from the buffers and the
variables of the loader. Where the caller has its stack and what is in its registers is arbitrary otherwise.
-/

namespace NeilOS.Disk

open Foundation Program
open Loader (linearAddress storeSector)

/-! ## The routines -/

/-- What the C code has in its registers and on its stack when it calls a routine. The stack has room, and
its pointer does not wrap. -/
structure Caller where
  regs : Registers
  ebp : Word
  returnAddress : Word
  stack : Memory
  esp : Word
  room : 64 ≤ esp.toNat
  esp_le : esp.toNat ≤ 0xFFF0

inductive BiosOp where
  /-- The next call of a routine. -/
  | entered
  | push (value : Word)
  | pop
  | pushHalf (value : BitVec 16)
  | popHalf
  | readEsp
  | writeEsp (value : Word)
  /-- The word at `SS:offset`. -/
  | loadStack (offset : Word)
  | int13 (regs : Registers)
  /-- `g_sectors_per_track` and `g_num_heads`. -/
  | geometry
  | setSectorsPerTrack (value : BitVec 16)
  | setNumHeads (value : BitVec 16)
  /-- The exception of a division. -/
  | divideError
  /-- The byte at `DS:pointer`. -/
  | load (pointer : Word)

/-- An interrupt returns with the carry flag and the registers. -/
def BiosOp.Answer : BiosOp → Type
  | entered => Caller
  | push _ => Unit
  | pop => Word
  | pushHalf _ => Unit
  | popHalf => BitVec 16
  | readEsp => Word
  | writeEsp _ => Unit
  | loadStack _ => Word
  | int13 _ => Bool × Registers
  | geometry => BitVec 16 × BitVec 16
  | setSectorsPerTrack _ => Unit
  | setNumHeads _ => Unit
  | divideError => Empty
  | load _ => Byte

abbrev BiosProgram := Program BiosOp BiosOp.Answer

def entered : BiosProgram Caller := perform .entered result

def push (value : Word) : BiosProgram Unit := perform (.push value) result

def pop : BiosProgram Word := perform .pop result

def pushHalf (value : BitVec 16) : BiosProgram Unit := perform (.pushHalf value) result

def popHalf : BiosProgram (BitVec 16) := perform .popHalf result

def readEsp : BiosProgram Word := perform .readEsp result

def writeEsp (value : Word) : BiosProgram Unit := perform (.writeEsp value) result

def loadStack (offset : Word) : BiosProgram Word := perform (.loadStack offset) result

def int13 (regs : Registers) : BiosProgram (Bool × Registers) := perform (.int13 regs) result

def geometry : BiosProgram (BitVec 16 × BitVec 16) := perform .geometry result

def setSectorsPerTrack (value : BitVec 16) : BiosProgram Unit :=
  perform (.setSectorsPerTrack value) result

def setNumHeads (value : BitVec 16) : BiosProgram Unit := perform (.setNumHeads value) result

/-- The registers with which a routine returns, as far as C code counts on them, and where it returns to. -/
structure Exit where
  code : ℤ
  ebx : Word
  esi : Word
  edi : Word
  ebp : Word
  ip : BitVec 16

/-- `disk_get_params` behind its `int 0x13`. -/
def keepGeometry (carry : Bool) (regs : Registers) : BiosProgram ℤ :=
  if carry then return -1
  else do
    let regs := { regs with ecx := { regs.ecx with low := regs.ecx.low &&& 0x3F } }
    let regs := { regs with eax := regs.eax.setHalf (regs.ecx.low.setWidth 16) }
    setSectorsPerTrack regs.eax.half
    let regs := { regs with eax := regs.eax.setHalf (regs.edx.high.setWidth 16) }
    let regs := { regs with eax := regs.eax.setHalf (regs.eax.half + 1) }
    setNumHeads regs.eax.half
    return 0

def diskGetParams (drive : Byte) (regs : Registers) (ebp : Word) : BiosProgram Exit := do
  push ebp
  let frame ← readEsp
  push regs.esi.word
  push regs.edi.word
  let regs := { regs with eax := .ofWord (drive.setWidth 32) }
  let regs := { regs with edx := { regs.edx with low := regs.eax.low } }
  let regs := { regs with edi := regs.edi.setHalf 0 }
  let regs := { regs with eax := { regs.eax with high := 0x08 } }
  let (carry, regs) ← int13 regs
  let code ← keepGeometry carry regs
  let edi ← pop
  let esi ← pop
  writeEsp frame
  let ebp ← pop
  let ip ← popHalf
  return ⟨code, regs.ebx.word, esi, edi, ebp, ip⟩

/-- The loop at `.retry`, which counts `SI` down to zero. -/
def retry : ℕ → Registers → BiosProgram ℤ
  | 0, _ => .diverge
  | fuel + 1, regs => do
    let (carry, regs) ← int13 { regs with eax := regs.eax.setHalf 0x0201 }
    if ¬ carry then return 0
    else
      let (_, regs) ← int13 { regs with eax := regs.eax.setHalf 0 }
      let regs := { regs with esi := regs.esi.setHalf (regs.esi.half - 1) }
      if regs.esi.half ≠ 0 then retry fuel regs else return -1

/-- The `call` of `lba_to_chs` and its `ret`, with two bytes of return address. What it computes between
them is a part of `Stage2.diskReadSectorRequest`. -/
def callLbaToChs (callSite : BitVec 16) : BiosProgram Unit := do
  pushHalf callSite
  let target ← popHalf
  if target = callSite then return () else .diverge

/-- `disk_read_sector` from the end of the request on. `SI` is 3 at the start of the loop. -/
def readAndReturn (frame : Word) : Option Registers → BiosProgram Exit
  | none => .perform .divideError Empty.elim
  | some regs => do
    let code ← retry 3 regs
    let edi ← pop
    let esi ← pop
    let ebx ← pop
    writeEsp frame
    let ebp ← pop
    let ip ← popHalf
    return ⟨code, ebx, esi, edi, ebp, ip⟩

def diskReadSector (drive : Byte) (callSite : BitVec 16) (regs : Registers) (ebp : Word) :
    BiosProgram Exit := do
  push ebp
  let frame ← readEsp
  push regs.ebx.word
  push regs.esi.word
  push regs.edi.word
  let lba ← loadStack (frame + 8)
  callLbaToChs callSite
  let segment ← loadStack (frame + 12)
  let offset ← loadStack (frame + 16)
  let (sectorsPerTrack, numHeads) ← geometry
  readAndReturn frame (Stage2.diskReadSectorRequest sectorsPerTrack numHeads drive lba
    (segment.setWidth 16) (offset.setWidth 16) regs)

/-- The end of a routine that C code has called: it goes on behind its `calll` if the routine returns there. -/
def returnTo (returnAddress : Word) (exit : Exit) : BiosProgram ℤ :=
  if exit.ip = returnAddress.setWidth 16 then return exit.code else .diverge

/-- The call of `disk_get_params` in the C code: the `calll` of `gcc -m16` pushes four bytes. -/
def callDiskGetParams (drive : Byte) : BiosProgram ℤ := do
  let caller ← entered
  push caller.returnAddress
  let exit ← diskGetParams drive caller.regs caller.ebp
  returnTo caller.returnAddress exit

/-- The call of `disk_read_sector` in the C code, with its arguments on the stack. -/
def callDiskReadSector (drive : Byte) (callSite : BitVec 16) (lba : Word) (segment offset : BitVec 16) :
    BiosProgram ℤ := do
  let caller ← entered
  push (offset.setWidth 32)
  push (segment.setWidth 32)
  push lba
  push caller.returnAddress
  let exit ← diskReadSector drive callSite caller.regs caller.ebp
  returnTo caller.returnAddress exit

/-! ## The firmware -/

/-- The interrupts that the routines have made. -/
inductive Request where
  | parameters
  | read (address : Chs) (buffer : Word)
  | reset

structure Bios where
  /-- The number of the drive in `DL`. -/
  number : Byte
  geometry : Geometry
  sector : ℕ → ℕ → Byte
  paramsKnown : Bool
  /-- Whether an attempt to read succeeds. The attempts are numbered. -/
  succeeds : ℕ → Chs → Bool
  /-- What a failing attempt leaves in memory. -/
  leaves : ℕ → Word → Memory → Memory
  leaves_outside : ∀ attempt address memory target, 512 ≤ (target - address).toNat →
    leaves attempt address memory target = memory target
  /-- The registers in which the geometry is reported. -/
  reports : ℕ → Registers
  reports_sectors : ∀ attempt,
    (reports attempt).ecx.low.toNat % 64 = geometry.sectorsPerTrack.toNat
  reports_heads : ∀ attempt, (reports attempt).edx.high.toNat + 1 = geometry.numHeads.toNat
  /-- What an interrupt leaves in `AX`. -/
  status : ℕ → BitVec 16
  /-- What an interrupt leaves on the stack. -/
  uses : ℕ → Word → Memory → Memory
  uses_above : ∀ request esp stack, KeepsAbove esp.toNat stack (uses request esp stack)
  caller : ℕ → Caller

/-- The memory, the number of attempted reads and all requests so far. -/
structure Traffic where
  memory : Memory
  attempts : ℕ
  requests : List Request

structure Machine extends Traffic where
  sectorsPerTrack : BitVec 16
  numHeads : BitVec 16
  stack : Memory
  esp : Word

/-- A machine before the first interrupt, with the stack pointer that `entry.asm` sets. -/
def Machine.fresh (memory : Memory) (sectorsPerTrack numHeads : BitVec 16) : Machine :=
  ⟨⟨memory, 0, []⟩, sectorsPerTrack, numHeads, fun _ ↦ 0, 0x3FF0⟩

def Machine.withTop (machine : Machine) (top : Stack.Top) : Machine :=
  { machine with esp := top.1, stack := top.2 }

namespace Bios

variable (bios : Bios)

/-- The number of a sector on the drive. -/
def block (address : Chs) : ℕ :=
  (address.cylinder * bios.geometry.numHeads.toNat + address.head) *
    bios.geometry.sectorsPerTrack.toNat + address.sector - 1

/-- A request is recorded, and the firmware uses the stack. -/
def serve (request : Request) (machine : Machine) : Machine :=
  { machine with
    requests := machine.requests ++ [request]
    stack := bios.uses machine.requests.length machine.esp machine.stack }

/-- An interrupt for the drive: a reset, a read of one sector or a question for the geometry. -/
def int13 (regs : Registers) (machine : Machine) : Option ((Bool × Registers) × Machine) :=
  let returned := { regs with eax := regs.eax.setHalf (bios.status machine.requests.length) }
  if regs.edx.low ≠ bios.number then none
  else if regs.eax.half = 0x0201 then
    let buffer := linearAddress regs.es regs.ebx.half
    let served := bios.serve (.read regs.chs buffer) machine
    if bios.succeeds machine.attempts regs.chs then
      some ((false, returned), { served with
        memory := storeSector machine.memory buffer (bios.sector (bios.block regs.chs))
        attempts := machine.attempts + 1 })
    else
      some ((true, returned), { served with
        memory := bios.leaves machine.attempts buffer machine.memory
        attempts := machine.attempts + 1 })
  else if regs.eax.high = 0x00 then some ((false, returned), bios.serve .reset machine)
  else if regs.eax.high = 0x08 then
    if bios.paramsKnown then
      some ((false, bios.reports machine.requests.length), bios.serve .parameters machine)
    else some ((true, returned), bios.serve .parameters machine)
  else none

def handle (ds : BitVec 16) : Handler BiosOp BiosOp.Answer Machine
  | .entered, machine =>
      let caller := bios.caller machine.requests.length
      some (caller, machine.withTop (caller.esp, caller.stack))
  | .push value, machine =>
      some ((), machine.withTop (Stack.push value (machine.esp, machine.stack)))
  | .pop, machine => some (machine.stack.load32 machine.esp, { machine with esp := machine.esp + 4 })
  | .pushHalf value, machine =>
      some ((), machine.withTop (Stack.pushHalf value (machine.esp, machine.stack)))
  | .popHalf, machine => some (machine.stack.load16 machine.esp, { machine with esp := machine.esp + 2 })
  | .readEsp, machine => some (machine.esp, machine)
  | .writeEsp value, machine => some ((), { machine with esp := value })
  | .loadStack offset, machine => some (machine.stack.load32 offset, machine)
  | .int13 regs, machine => bios.int13 regs machine
  | .geometry, machine => some ((machine.sectorsPerTrack, machine.numHeads), machine)
  | .setSectorsPerTrack value, machine => some ((), { machine with sectorsPerTrack := value })
  | .setNumHeads value, machine => some ((), { machine with numHeads := value })
  | .divideError, _ => none
  | .load pointer, machine => some (machine.memory (linearAddress ds 0 + pointer), machine)

/-- `disk_get_params` has stored the geometry of the drive. -/
def Known (machine : Machine) : Prop :=
  machine.sectorsPerTrack = bios.geometry.sectorsPerTrack ∧ machine.numHeads = bios.geometry.numHeads

/-- The number of sectors that the ten bits of a cylinder reach. -/
def reach : ℕ := 1024 * bios.geometry.sectorsPerTrack.toNat * bios.geometry.numHeads.toNat

/-- The sector that a block address selects. -/
def sectorAt (lba : Word) : ℕ → Byte := bios.sector (lba.toNat % bios.reach)

end Bios

/-! ## The request -/

/-- The address on the drive that a block address selects. -/
def Bios.addressOf (bios : Bios) (lba : Word) : Chs :=
  chsOf bios.geometry.sectorsPerTrack.toNat bios.geometry.numHeads.toNat (lba.toNat % bios.reach)

theorem Bios.block_addressOf (bios : Bios) (lba : Word) :
    bios.block (bios.addressOf lba) = lba.toNat % bios.reach :=
  chsOf_lba _ _ _

/-- What the loop finds in the registers and keeps there. -/
structure Requests (bios : Bios) (regs : Registers) (address : Chs) (buffer : Word) : Prop where
  drive : regs.edx.low = bios.number
  chs_eq : regs.chs = address
  buffer_eq : linearAddress regs.es regs.ebx.half = buffer

theorem Stage2.request_block (bios : Bios) (lba : Word) (segment offset : BitVec 16) (regs : Registers) :
    ∃ loaded, Stage2.diskReadSectorRequest bios.geometry.sectorsPerTrack bios.geometry.numHeads
        bios.number lba segment offset regs = some loaded ∧
      Requests bios loaded (bios.addressOf lba) (linearAddress segment offset) ∧
      loaded.esi.half.toNat = 3 := by
  obtain ⟨loaded, hrequest, hchs, hdrive, hes, hbx, hsi⟩ :=
    Stage2.request_chs bios.geometry bios.number lba segment offset regs
  refine ⟨loaded, hrequest, ⟨hdrive, hchs, ?_⟩, ?_⟩
  · rw [hes, hbx]
  · rw [hsi]
    rfl

end NeilOS.Disk
