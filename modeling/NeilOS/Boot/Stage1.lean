import Mathlib.Tactic.IntervalCases
import NeilOS.Disk.Chs
import NeilOS.Foundation.Stack
import NeilOS.Foundation.Text
import NeilOS.Loader.Model

/-!
# The boot sector

Stage 1 prints a message, reads 16 sectors from a fixed block address with one call of `INT 13h` and jumps to
them. It converts the block address with the geometry in its own parameter block, while the firmware counts
sectors with the geometry of the drive. So the sectors are those of stage 2 for one geometry only.

The routines are modelled instruction by instruction, with what `call` and `push` put below `0x7C00` and what
`pop` and `ret` take back; `disk_read` and `disk_reset` of the boot sector are not called by it. An interrupt
may use the stack below its pointer down to `0x7000`, and the firmware has data of its own below `0x500` and
from `0x80000` on.
-/

namespace NeilOS.Boot

open Foundation Program
open Disk (Registers Chs Geometry)
open Loader (linearAddress)

/-! ## The routines -/

inductive BootOp where
  | load (segment offset : BitVec 16)
  | store (segment offset : BitVec 16) (value : Byte)
  /-- `INT 10h` with `AH` = `0x0E`. -/
  | teletype (sp : BitVec 16) (character : Byte)
  | int13 (sp : BitVec 16) (regs : Registers)
  /-- `INT 16h`, which waits for a key. -/
  | waitKey (sp : BitVec 16)
  /-- The exception of a division. -/
  | divideError

/-- `INT 13h` returns with the carry flag and the registers. -/
def BootOp.Answer : BootOp → Type
  | load _ _ => Byte
  | store _ _ _ => Unit
  | teletype _ _ => Unit
  | int13 _ _ => Bool × Registers
  | waitKey _ => Unit
  | divideError => Empty

abbrev BootProgram := Program BootOp BootOp.Answer

def load (segment offset : BitVec 16) : BootProgram Byte := perform (.load segment offset) result

def store (segment offset : BitVec 16) (value : Byte) : BootProgram Unit :=
  perform (.store segment offset value) result

def teletype (sp : BitVec 16) (character : Byte) : BootProgram Unit :=
  perform (.teletype sp character) result

def int13 (sp : BitVec 16) (regs : Registers) : BootProgram (Bool × Registers) :=
  perform (.int13 sp regs) result

def waitKey (sp : BitVec 16) : BootProgram Unit := perform (.waitKey sp) result

/-- A word operand in memory. -/
def loadWord (segment offset : BitVec 16) : BootProgram (BitVec 16) := do
  let low ← load segment offset
  let high ← load segment (offset + 1)
  return high ++ low

def storeWord (segment offset value : BitVec 16) : BootProgram Unit := do
  store segment offset (value.setWidth 8)
  store segment (offset + 1) ((value >>> 8).setWidth 8)

/-- Where the assembler puts the messages, behind the parameter block, and the instructions behind a
`call`. -/
structure SectorImage where
  msgLoading : BitVec 16
  msgError : BitVec 16
  afterLoading : BitVec 16
  afterConversion : BitVec 16
  afterError : BitVec 16
  loading_ge : 0x7C3E ≤ msgLoading.toNat
  loading_le : msgLoading.toNat + 20 < 0x7E00
  error_ge : 0x7C3E ≤ msgError.toNat
  error_le : msgError.toNat + 17 < 0x7E00

/-- The offsets of the parameter block at `0x7C00`. -/
def sectorsPerTrack : BitVec 16 := 0x7C18

def headsPerCylinder : BitVec 16 := 0x7C1A

def driveNumber : BitVec 16 := 0x7C24

/-- The loop of `puts`. Without a zero byte in the segment, it goes round for ever. -/
def putsLoop (ds sp : BitVec 16) : ℕ → Registers → BootProgram Registers
  | 0, _ => .diverge
  | fuel + 1, regs => do
    let al ← load ds regs.esi.half
    let regs := { regs with eax := { regs.eax with low := al }
                            esi := regs.esi.setHalf (regs.esi.half + 1) }
    if regs.eax.low = 0 then return regs
    else
      let regs := { regs with eax := { regs.eax with high := 0x0E } }
      let regs := { regs with ebx := { regs.ebx with high := 0 } }
      teletype sp regs.eax.low
      putsLoop ds sp fuel regs

/-- The call of `puts` in front of `returnAddress`. -/
def callPuts (ds ss sp returnAddress : BitVec 16) (regs : Registers) : BootProgram Registers := do
  storeWord ss (sp - 2) returnAddress
  storeWord ss (sp - 4) regs.esi.half
  storeWord ss (sp - 6) regs.eax.half
  let regs ← putsLoop ds (sp - 6) 65536 regs
  let ax ← loadWord ss (sp - 6)
  let si ← loadWord ss (sp - 4)
  let ip ← loadWord ss (sp - 2)
  if ip = returnAddress then
    return { regs with eax := regs.eax.setHalf ax, esi := regs.esi.setHalf si }
  else .diverge

/-- The call of `lba_to_chs` in front of `returnAddress`. -/
def callLbaToChs (ds ss sp returnAddress : BitVec 16) (regs : Registers) : BootProgram Registers := do
  storeWord ss (sp - 2) returnAddress
  let sectors ← loadWord ds sectorsPerTrack
  let heads ← loadWord ds headsPerCylinder
  match Disk.Stage1.lbaToChs sectors heads regs with
  | none => .perform .divideError Empty.elim
  | some regs =>
    let ip ← loadWord ss (sp - 2)
    if ip = returnAddress then return regs else .diverge

/-- A far jump with the registers at its target. -/
structure Jump where
  cs : BitVec 16
  ip : BitVec 16
  regs : Registers

/-- A key resets the machine. -/
def diskError (image : SectorImage) (ds ss sp : BitVec 16) (regs : Registers) : BootProgram Jump := do
  let regs := { regs with esi := regs.esi.setHalf image.msgError }
  let regs ← callPuts ds ss sp image.afterError regs
  let regs := { regs with eax := { regs.eax with high := 0 } }
  waitKey sp
  return ⟨0xFFFF, 0, regs⟩

/-- The end of `start`, from its `int 0x13` on. -/
def enterStage2 (image : SectorImage) (ds ss sp : BitVec 16) (regs : Registers) : BootProgram Jump := do
  let (carry, regs) ← int13 sp regs
  if carry then diskError image ds ss sp regs
  else
    let dl ← load ds driveNumber
    return ⟨0x0500, 0x0000, { regs with edx := { regs.edx with low := dl } }⟩

/-- `start`, entered with the number of the drive in `DL`. -/
def start (image : SectorImage) (regs : Registers) : BootProgram Jump := do
  let regs := { regs with eax := regs.eax.setHalf 0 }
  let ds := regs.eax.half
  let regs := { regs with es := regs.eax.half }
  let ss := regs.eax.half
  let sp := 0x7C00
  store ds driveNumber regs.edx.low
  let regs := { regs with esi := regs.esi.setHalf image.msgLoading }
  let regs ← callPuts ds ss sp image.afterLoading regs
  let regs := { regs with eax := regs.eax.setHalf 2864 }
  let regs ← callLbaToChs ds ss sp image.afterConversion regs
  let regs := { regs with eax := regs.eax.setHalf 0x0500 }
  let regs := { regs with es := regs.eax.half }
  let regs := { regs with ebx := regs.ebx.setHalf 0 }
  let regs := { regs with eax := { regs.eax with high := 0x02 } }
  let regs := { regs with eax := { regs.eax with low := 16 } }
  let dl ← load ds driveNumber
  enterStage2 image ds ss sp { regs with edx := { regs.edx with low := dl } }

/-! ## The firmware -/

/-- From `0x500` to `0x80000` only the stack below its pointer, down to `0x7000`, has changed. -/
def Spared (sp : ℕ) (before after : Memory) : Prop :=
  ∀ target : Word, 0x500 ≤ target.toNat ∧ target.toNat < 0x7000 ∨ sp ≤ target.toNat ∧ target.toNat < 0x80000 →
    after target = before target

/-- The drive from which the boot sector was read. -/
structure Firmware where
  number : Byte
  geometry : Geometry
  sector : ℕ → ℕ → Byte
  succeeds : Chs → Bool
  /-- What a failing read leaves in memory. -/
  leaves : Word → ℕ → Memory → Memory
  leaves_outside : ∀ buffer count memory target, 512 * count ≤ (target - buffer).toNat →
    leaves buffer count memory target = memory target
  /-- The registers after a read. -/
  returned : Registers → Registers
  /-- What an interrupt leaves on the stack and in the data of the firmware. -/
  uses : BitVec 16 → Memory → Memory
  uses_spares : ∀ sp memory, Spared sp.toNat memory (uses sp memory)

structure Machine where
  memory : Memory
  screen : List Byte
  requests : List Registers

namespace Firmware

/-- The number of a sector on the drive. -/
def block (firmware : Firmware) (address : Chs) : ℕ :=
  (address.cylinder * firmware.geometry.numHeads.toNat + address.head) *
    firmware.geometry.sectorsPerTrack.toNat + address.sector - 1

/-- Consecutive sectors, stored from `buffer` on. -/
def readSectors (firmware : Firmware) (first count : ℕ) (buffer : Word) (memory : Memory) : Memory :=
  fun target ↦
    let offset := (target - buffer).toNat
    if offset < 512 * count then firmware.sector (first + offset / 512) (offset % 512) else memory target

/-- A read with `AH` = 2. Other functions and drives are left out. -/
def int13 (firmware : Firmware) (sp : BitVec 16) (regs : Registers) (machine : Machine) :
    Option ((Bool × Registers) × Machine) :=
  if regs.edx.low ≠ firmware.number ∨ regs.eax.high ≠ 0x02 then none
  else
    let buffer := linearAddress regs.es regs.ebx.half
    let requests := machine.requests ++ [regs]
    let memory := firmware.uses sp machine.memory
    if firmware.succeeds regs.chs then
      some ((false, firmware.returned regs), { machine with
        memory := firmware.readSectors (firmware.block regs.chs) regs.eax.low.toNat buffer memory
        requests := requests })
    else
      some ((true, firmware.returned regs), { machine with
        memory := firmware.leaves buffer regs.eax.low.toNat memory
        requests := requests })

def handle (firmware : Firmware) : Handler BootOp BootOp.Answer Machine
  | .load segment offset, machine => some (machine.memory (linearAddress segment offset), machine)
  | .store segment offset value, machine =>
      some ((), { machine with memory := machine.memory.store8 (linearAddress segment offset) value })
  | .teletype sp character, machine =>
      some ((), { machine with
        memory := firmware.uses sp machine.memory
        screen := machine.screen ++ [character] })
  | .int13 sp regs, machine => firmware.int13 sp regs machine
  | .waitKey sp, machine => some ((), { machine with memory := firmware.uses sp machine.memory })
  | .divideError, _ => none

end Firmware

/-! ## The sector in memory -/

def characters (text : String) : List Byte := text.toList.map fun character ↦ .ofNat 8 character.toNat

def loadingText : List Byte := characters "Loading Stage 2...\r\n"

def errorText : List Byte := characters "Disk Read Error\r\n"

/-- A text with its terminating zero, as `lodsb` reads it. -/
abbrev TextAt (memory : Memory) (segment : BitVec 16) : BitVec 16 → List Byte → Prop :=
  TextFrom (fun si ↦ memory (linearAddress segment si)) fun si ↦ si + 1

/-- What the routines read of the boot sector. -/
structure InMemory (image : SectorImage) (memory : Memory) : Prop where
  sectors : memory (linearAddress 0 sectorsPerTrack) = 18
  sectors_high : memory (linearAddress 0 (sectorsPerTrack + 1)) = 0
  heads : memory (linearAddress 0 headsPerCylinder) = 2
  heads_high : memory (linearAddress 0 (headsPerCylinder + 1)) = 0
  loading : TextAt memory 0 image.msgLoading loadingText
  error : TextAt memory 0 image.msgError errorText

theorem linearAddress_zero (offset : BitVec 16) : (linearAddress 0 offset).toNat = offset.toNat := by
  have hbase : (0 : BitVec 16).setWidth 32 <<< 4 = (0 : Word) := by decide
  have hsum : (0 : Word) + offset.setWidth 32 = offset.setWidth 32 := BitVec.zero_add _
  rw [linearAddress, hbase, hsum]
  exact BitVec.toNat_setWidth_of_le (by decide)

theorem TextAt.congr {memory other : Memory} {offset : BitVec 16} {text : List Byte}
    (h : TextAt memory 0 offset text) (hlow : 0x7C3E ≤ offset.toNat)
    (hhigh : offset.toNat + text.length < 0x7E00)
    (hsame : ∀ target : Word, 0x7C3E ≤ target.toNat → target.toNat < 0x7E00 →
      other target = memory target) : TextAt other 0 offset text := by
  apply TextFrom.congr h
  intro index hindex
  rw [iterate_add_one]
  have hoffset : (offset + .ofNat 16 index).toNat = offset.toNat + index := by bv_omega
  have haddress := linearAddress_zero (offset + .ofNat 16 index)
  exact hsame _ (by omega) (by omega)

/-- The sector stays in memory if the parameter block and the messages do. -/
theorem InMemory.congr {image : SectorImage} {memory other : Memory} (h : InMemory image memory)
    (hsame : ∀ target : Word, 0x7C18 ≤ target.toNat → target.toNat < 0x7E00 → target.toNat ≠ 0x7C24 →
      other target = memory target) : InMemory image other := by
  have htext : ∀ target : Word, 0x7C3E ≤ target.toNat → target.toNat < 0x7E00 →
      other target = memory target := fun target hlow hhigh ↦ hsame target (by omega) hhigh (by omega)
  constructor
  · exact (hsame _ (by decide) (by decide) (by decide)).trans h.sectors
  · exact (hsame _ (by decide) (by decide) (by decide)).trans h.sectors_high
  · exact (hsame _ (by decide) (by decide) (by decide)).trans h.heads
  · exact (hsame _ (by decide) (by decide) (by decide)).trans h.heads_high
  · exact h.loading.congr image.loading_ge image.loading_le htext
  · exact h.error.congr image.error_ge image.error_le htext

/-! ## What the stack and the firmware change -/

namespace Spared

variable {sp : ℕ} {before middle after : Memory}

theorem trans (hfirst : Spared sp before middle) (hsecond : Spared sp middle after) : Spared sp before after :=
  fun target htarget ↦ (hsecond target htarget).trans (hfirst target htarget)

theorem raise {higher : ℕ} (h : Spared sp before after) (hle : sp ≤ higher) : Spared higher before after :=
  fun target htarget ↦ h target (htarget.imp_right fun hhigh ↦ ⟨hle.trans hhigh.1, hhigh.2⟩)

theorem load16 (h : Spared sp before after) {address : Word} (hlow : sp ≤ address.toNat)
    (hhigh : address.toNat + 2 ≤ 0x80000) : after.load16 address = before.load16 address :=
  Memory.load16_congr fun target htarget ↦ h target (.inr (by bv_omega))

/-- A word pushed onto the stack of the boot sector. -/
theorem store16 (memory : Memory) (value : BitVec 16) {address : Word} (hlow : 0x7000 ≤ address.toNat)
    (hhigh : address.toNat + 2 ≤ sp) (hsp : sp < 2 ^ 32) : Spared sp memory (memory.store16 address value) :=
  fun _ htarget ↦ Memory.store16_of_outside (by bv_omega)

/-- The parameter block and the messages lie above the stack. -/
theorem inMemory {image : SectorImage} (h : Spared 0x7C00 before after) (hmemory : InMemory image before) :
    InMemory image after :=
  hmemory.congr fun target hlow hhigh _ ↦ h target (.inr ⟨by omega, by omega⟩)

end Spared

/-! ## The run -/

section Run

variable {firmware : Firmware} {image : SectorImage}

theorem linearAddress_succ {offset : BitVec 16} (h : offset.toNat + 1 < 0x10000) :
    linearAddress 0 (offset + 1) = linearAddress 0 offset + 1 := by
  have hfirst := linearAddress_zero offset
  have hsecond := linearAddress_zero (offset + 1)
  bv_omega

theorem meets_load {segment offset : BitVec 16} {machine : Machine} {post : Byte → Machine → Prop} :
    Meets firmware.handle (fun _ _ ↦ True) (load segment offset) machine post ↔
      post (machine.memory (linearAddress segment offset)) machine := by
  simp [load, Meets, Firmware.handle]

theorem meets_store {segment offset : BitVec 16} {value : Byte} {machine : Machine}
    {post : Unit → Machine → Prop} :
    Meets firmware.handle (fun _ _ ↦ True) (store segment offset value) machine post ↔
      post () { machine with memory := machine.memory.store8 (linearAddress segment offset) value } := by
  simp [store, Meets, Firmware.handle]

theorem meets_teletype {sp : BitVec 16} {character : Byte} {machine : Machine}
    {post : Unit → Machine → Prop} :
    Meets firmware.handle (fun _ _ ↦ True) (teletype sp character) machine post ↔
      post () { machine with
        memory := firmware.uses sp machine.memory
        screen := machine.screen ++ [character] } := by
  simp [teletype, Meets, Firmware.handle]

theorem meets_waitKey {sp : BitVec 16} {machine : Machine} {post : Unit → Machine → Prop} :
    Meets firmware.handle (fun _ _ ↦ True) (waitKey sp) machine post ↔
      post () { machine with memory := firmware.uses sp machine.memory } := by
  simp [waitKey, Meets, Firmware.handle]

theorem meets_int13 {sp : BitVec 16} {regs : Registers} {machine after : Machine}
    {answer : Bool × Registers} {post : Bool × Registers → Machine → Prop}
    (h : firmware.int13 sp regs machine = some (answer, after)) (hpost : post answer after) :
    Meets firmware.handle (fun _ _ ↦ True) (int13 sp regs) machine post :=
  ⟨trivial, (answer, after), h, hpost⟩

theorem meets_loadWord {offset : BitVec 16} {machine : Machine} {post : BitVec 16 → Machine → Prop}
    (hoffset : offset.toNat + 1 < 0x10000) :
    Meets firmware.handle (fun _ _ ↦ True) (loadWord 0 offset) machine post ↔
      post (machine.memory.load16 (linearAddress 0 offset)) machine := by
  rw [loadWord, meets_bind, meets_load, meets_bind, meets_load, meets_pure, linearAddress_succ hoffset]
  rfl

theorem meets_storeWord {offset value : BitVec 16} {machine : Machine} {post : Unit → Machine → Prop}
    (hoffset : offset.toNat + 1 < 0x10000) :
    Meets firmware.handle (fun _ _ ↦ True) (storeWord 0 offset value) machine post ↔
      post () { machine with memory := machine.memory.store16 (linearAddress 0 offset) value } := by
  rw [storeWord, meets_bind, meets_store, meets_store, linearAddress_succ hoffset]
  rfl

/-- The text goes to the screen; the message is above everything that an interrupt may change. -/
theorem putsLoop_spec {text : List Byte} {sp : BitVec 16} {fuel : ℕ} {regs : Registers} {machine : Machine}
    (h : TextAt machine.memory 0 regs.esi.half text) (hsp : sp.toNat ≤ 0x7C00)
    (hlow : 0x7C3E ≤ regs.esi.half.toNat) (hhigh : regs.esi.half.toNat + text.length < 0x7E00)
    (hfuel : text.length < fuel) :
    Meets firmware.handle (fun _ _ ↦ True) (putsLoop 0 sp fuel regs) machine fun _ after ↦
      Spared sp.toNat machine.memory after.memory ∧ after.screen = machine.screen ++ text ∧
        after.requests = machine.requests := by
  induction text generalizing fuel regs machine with
  | nil =>
    obtain ⟨fuel, rfl⟩ := Nat.exists_eq_add_of_lt hfuel
    have hend : machine.memory (linearAddress 0 regs.esi.half) = 0 := h
    rw [putsLoop, meets_bind, meets_load]
    dsimp only
    rw [if_pos hend]
    exact ⟨fun _ _ ↦ rfl, (List.append_nil _).symm, rfl⟩
  | cons character rest ih =>
    obtain ⟨hzero, hcharacter, hrest⟩ := h
    obtain ⟨fuel, rfl⟩ := Nat.exists_eq_add_of_lt hfuel
    simp only [List.length_cons] at hhigh
    have hused := firmware.uses_spares sp machine.memory
    have hnext : (regs.esi.half + 1).toNat = regs.esi.half.toNat + 1 := by bv_omega
    have hkept : TextAt (firmware.uses sp machine.memory) 0 (regs.esi.half + 1) rest :=
      TextAt.congr hrest (by omega) (by omega) fun target hlow hhigh ↦
        hused target (.inr ⟨by omega, by omega⟩)
    rw [putsLoop, meets_bind, meets_load]
    dsimp only at hcharacter ⊢
    rw [hcharacter, if_neg hzero, meets_bind, meets_teletype]
    refine (ih ?_ ?_ ?_ ?_).mono fun _ after hafter ↦ ?_
    · dsimp only
      rw [Register.half_setHalf]
      exact hkept
    · dsimp only
      rw [Register.half_setHalf]
      omega
    · dsimp only
      rw [Register.half_setHalf]
      omega
    · rw [List.length_cons]
      omega
    · obtain ⟨hspared, hscreen, hrequests⟩ := hafter
      refine ⟨hused.trans hspared, ?_, hrequests⟩
      rw [hscreen, List.append_assoc]
      rfl

/-- `puts` returns behind its call: the interrupts leave its words on the stack. -/
theorem callPuts_spec {text : List Byte} {returnAddress : BitVec 16} {regs : Registers} {machine : Machine}
    (h : TextAt machine.memory 0 regs.esi.half text) (hlow : 0x7C3E ≤ regs.esi.half.toNat)
    (hhigh : regs.esi.half.toNat + text.length < 0x7E00) :
    Meets firmware.handle (fun _ _ ↦ True) (callPuts 0 0 0x7C00 returnAddress regs) machine fun _ after ↦
      Spared 0x7C00 machine.memory after.memory ∧ after.screen = machine.screen ++ text ∧
        after.requests = machine.requests := by
  let called := machine.memory.store16 0x7BFE returnAddress
  let saved := (called.store16 0x7BFC regs.esi.half).store16 0x7BFA regs.eax.half
  have hcalled : Spared 0x7C00 machine.memory called := .store16 _ _ (by decide) (by decide) (by decide)
  have hsaved : Spared 0x7BFE called saved :=
    .trans (.store16 _ _ (by decide) (by decide) (by decide)) (.store16 _ _ (by decide) (by decide) (by decide))
  have hpushed : Spared 0x7C00 machine.memory saved := hcalled.trans (hsaved.raise (by decide))
  have htext : TextAt saved 0 regs.esi.half text :=
    TextAt.congr h hlow hhigh fun target hlow hhigh ↦ hpushed target (.inr ⟨by omega, by omega⟩)
  have hreturn (after : Memory) (hafter : Spared 0x7BFA saved after) :
      after.load16 (linearAddress 0 (0x7C00 - 2)) = returnAddress :=
    calc
      after.load16 0x7BFE = saved.load16 0x7BFE := hafter.load16 (by decide) (by decide)
      _ = called.load16 0x7BFE := hsaved.load16 (by decide) (by decide)
      _ = returnAddress := Memory.load16_store16 ..
  rw [callPuts, meets_bind, meets_storeWord (by decide), meets_bind, meets_storeWord (by decide), meets_bind,
    meets_storeWord (by decide), meets_bind]
  refine (putsLoop_spec htext (by decide) hlow hhigh (by omega)).mono fun printed after hafter ↦ ?_
  obtain ⟨hspared, hscreen, hrequests⟩ := hafter
  rw [meets_bind, meets_loadWord (by decide), meets_bind, meets_loadWord (by decide), meets_bind,
    meets_loadWord (by decide), if_pos (hreturn _ hspared)]
  exact ⟨hpushed.trans (hspared.raise (by decide)), hscreen, hrequests⟩

/-- `lba_to_chs` converts with the geometry of the parameter block. -/
theorem callLbaToChs_spec {returnAddress : BitVec 16} {regs converted : Registers} {machine : Machine}
    (h : InMemory image machine.memory)
    (hconvert : Disk.Stage1.lbaToChs Disk.floppy.sectorsPerTrack Disk.floppy.numHeads regs = some converted) :
    Meets firmware.handle (fun _ _ ↦ True) (callLbaToChs 0 0 0x7C00 returnAddress regs) machine
      fun answer after ↦ answer = converted ∧ Spared 0x7C00 machine.memory after.memory ∧
        after.screen = machine.screen ∧ after.requests = machine.requests := by
  let called := machine.memory.store16 0x7BFE returnAddress
  have hcalled : Spared 0x7C00 machine.memory called := .store16 _ _ (by decide) (by decide) (by decide)
  have hkept := hcalled.inMemory h
  have hsectors : called.load16 (linearAddress 0 sectorsPerTrack) = Disk.floppy.sectorsPerTrack := by
    have hhigh : called (linearAddress 0 sectorsPerTrack + 1) = 0 := hkept.sectors_high
    rw [Memory.load16, hhigh, hkept.sectors]
    decide
  have hheads : called.load16 (linearAddress 0 headsPerCylinder) = Disk.floppy.numHeads := by
    have hhigh : called (linearAddress 0 headsPerCylinder + 1) = 0 := hkept.heads_high
    rw [Memory.load16, hhigh, hkept.heads]
    decide
  rw [callLbaToChs, meets_bind, meets_storeWord (by decide), meets_bind, meets_loadWord (by decide), meets_bind,
    meets_loadWord (by decide)]
  change Meets _ _ (match Disk.Stage1.lbaToChs (called.load16 (linearAddress 0 sectorsPerTrack))
    (called.load16 (linearAddress 0 headsPerCylinder)) regs with | none => _ | some regs => _) _ _
  rw [hsectors, hheads, hconvert]
  dsimp only
  rw [meets_bind, meets_loadWord (by decide)]
  dsimp only
  rw [Memory.load16_store16, if_pos rfl]
  exact ⟨rfl, hcalled, rfl, rfl⟩

/-- The memory with the number of the drive in the parameter block. -/
def noted (memory : Memory) (drive : Byte) : Memory := memory.store8 0x7C24 drive

theorem InMemory.noted {memory : Memory} (h : InMemory image memory) (drive : Byte) :
    InMemory image (noted memory drive) := by
  apply h.congr
  intro target _ _ hother
  apply Memory.store8_of_ne
  rintro rfl
  exact hother rfl

/-- What the sector asks `INT 13h` for: 16 sectors of the last track at `0x5000`. -/
structure Asks (request : Registers) (drive : Byte) : Prop where
  chs_eq : request.chs = ⟨79, 1, 3⟩
  function_eq : request.eax.high = 0x02
  count_eq : request.eax.low = 16
  drive_eq : request.edx.low = drive
  buffer_eq : linearAddress request.es request.ebx.half = 0x5000

/-- Up to its `int 0x13` the sector has printed its message and prepared the request. -/
theorem meets_start {memory : Memory} (h : InMemory image memory) {regs : Registers}
    {post : Jump → Machine → Prop}
    (hnext : ∀ request now, Asks request regs.edx.low → Spared 0x7C00 (noted memory regs.edx.low) now →
      Meets firmware.handle (fun _ _ ↦ True) (enterStage2 image 0 0 0x7C00 request) ⟨now, loadingText, []⟩ post) :
    Meets firmware.handle (fun _ _ ↦ True) (start image regs) ⟨memory, [], []⟩ post := by
  have hnoted := h.noted regs.edx.low
  have hdrive : linearAddress 0 driveNumber = 0x7C24 := by decide
  rw [start]
  dsimp only
  rw [Register.half_setHalf, meets_bind, meets_store, meets_bind, hdrive]
  refine (@callPuts_spec firmware loadingText _ _ _ ?_ ?_ ?_).mono fun printed afterPuts hputs ↦ ?_
  · dsimp only
    rw [Register.half_setHalf]
    exact hnoted.loading
  · dsimp only
    rw [Register.half_setHalf]
    exact image.loading_ge
  · dsimp only
    rw [Register.half_setHalf]
    exact image.loading_le
  obtain ⟨hspared, hscreen, hrequests⟩ := hputs
  have hax : ({ printed with eax := printed.eax.setHalf 2864 } : Registers).eax.half.toNat = 2864 :=
    congrArg BitVec.toNat (Register.half_setHalf _ _)
  obtain ⟨converted, hconvert, hchs⟩ :=
    Disk.Stage1.lbaToChs_chs Disk.floppy _ (by decide : 2864 < _) hax
  rw [meets_bind]
  refine (callLbaToChs_spec (hspared.inMemory hnoted) hconvert).mono fun answer now hanswer ↦ ?_
  obtain ⟨rfl, hcall, hsame, hnone⟩ := hanswer
  have hnow := hspared.trans hcall
  have hloaded : now.memory 0x7C24 = regs.edx.low :=
    (hnow 0x7C24 (.inr ⟨by decide, by decide⟩)).trans (Memory.store8_same memory 0x7C24 regs.edx.low)
  have hmachine : now = ⟨now.memory, loadingText, []⟩ := by
    have hscreenEq : now.screen = loadingText := hsame.trans hscreen
    have hrequestsEq : now.requests = [] := hnone.trans hrequests
    rw [← hscreenEq, ← hrequestsEq]
  rw [meets_bind, meets_load, hdrive, hloaded, hmachine]
  refine hnext _ _ ⟨hchs, rfl, rfl, rfl, ?_⟩ hnow
  dsimp only
  rw [Register.half_setHalf, Register.half_setHalf]
  decide

/-- The sectors that the request reaches are those of stage 2 on a disk with the geometry of the parameter
block only. -/
theorem block_eq_iff (firmware : Firmware) :
    firmware.block ⟨79, 1, 3⟩ = 2864 ↔
      firmware.geometry.sectorsPerTrack.toNat = 18 ∧ firmware.geometry.numHeads.toNat = 2 := by
  have hpositive := firmware.geometry.sectors_pos
  have hsectors := firmware.geometry.sectors_le
  have hheads := firmware.geometry.heads_pos
  change (79 * _ + 1) * _ + 3 - 1 = 2864 ↔ _
  generalize firmware.geometry.sectorsPerTrack.toNat = sectors at *
  generalize firmware.geometry.numHeads.toNat = heads at *
  interval_cases sectors <;> omega

/-- The area that stage 2 is loaded to does not reach the boot sector. -/
theorem above_area {target : Word} (h : 0x7C18 ≤ target.toNat) (hhigh : target.toNat < 0x7E00) :
    512 * 16 ≤ (target - 0x5000).toNat := by
  bv_omega

theorem int13_eq {request : Registers} {machine : Machine} (h : Asks request firmware.number) :
    firmware.int13 0x7C00 request machine =
      some ((!firmware.succeeds ⟨79, 1, 3⟩, firmware.returned request),
        { machine with
          memory :=
            if firmware.succeeds ⟨79, 1, 3⟩ then
              firmware.readSectors (firmware.block ⟨79, 1, 3⟩) 16 0x5000 (firmware.uses 0x7C00 machine.memory)
            else firmware.leaves 0x5000 16 (firmware.uses 0x7C00 machine.memory)
          requests := machine.requests ++ [request] }) := by
  unfold Firmware.int13
  rw [if_neg (by simp [h.drive_eq, h.function_eq]), h.chs_eq, h.count_eq, h.buffer_eq]
  cases firmware.succeeds ⟨79, 1, 3⟩ <;> rfl

/-- The jump to the loaded sectors, with the number of the drive that the parameter block still holds. -/
theorem enterStage2_of_success {request : Registers} {machine : Machine}
    (h : Asks request firmware.number) (hsucceeds : firmware.succeeds ⟨79, 1, 3⟩ = true) :
    Meets firmware.handle (fun _ _ ↦ True) (enterStage2 image 0 0 0x7C00 request) machine fun jump after ↦
      jump.cs = 0x0500 ∧ jump.ip = 0 ∧ jump.regs.edx.low = machine.memory 0x7C24 ∧
      after = ⟨firmware.readSectors (firmware.block ⟨79, 1, 3⟩) 16 0x5000
        (firmware.uses 0x7C00 machine.memory), machine.screen, machine.requests ++ [request]⟩ := by
  have hint13 := @int13_eq firmware request machine h
  have hdrive : linearAddress 0 driveNumber = 0x7C24 := by decide
  have hkept : firmware.readSectors (firmware.block ⟨79, 1, 3⟩) 16 0x5000
      (firmware.uses 0x7C00 machine.memory) 0x7C24 = machine.memory 0x7C24 := by
    unfold Firmware.readSectors
    dsimp only
    rw [if_neg (by decide)]
    exact firmware.uses_spares _ _ 0x7C24 (.inr ⟨by decide, by decide⟩)
  rw [hsucceeds, if_pos rfl] at hint13
  rw [enterStage2, meets_bind]
  refine meets_int13 hint13 ?_
  dsimp only
  rw [if_neg (by decide), meets_bind, meets_load, hdrive]
  exact ⟨rfl, rfl, hkept, rfl⟩

/-- The message and the reset; a failing read has spared the boot sector. -/
theorem enterStage2_of_failure {request : Registers} {machine : Machine}
    (h : Asks request firmware.number) (hmemory : InMemory image machine.memory)
    (hfails : firmware.succeeds ⟨79, 1, 3⟩ = false) :
    Meets firmware.handle (fun _ _ ↦ True) (enterStage2 image 0 0 0x7C00 request) machine fun jump after ↦
      jump.cs = 0xFFFF ∧ jump.ip = 0 ∧ after.screen = machine.screen ++ errorText ∧
        after.requests = machine.requests ++ [request] := by
  have hint13 := @int13_eq firmware request machine h
  have hused := Spared.inMemory (firmware.uses_spares 0x7C00 machine.memory) hmemory
  have hkept : InMemory image (firmware.leaves 0x5000 16 (firmware.uses 0x7C00 machine.memory)) := by
    apply hused.congr
    intro target hlow hhigh _
    exact firmware.leaves_outside _ _ _ _ (above_area hlow hhigh)
  rw [hfails, if_neg Bool.false_ne_true] at hint13
  rw [enterStage2, meets_bind]
  refine meets_int13 hint13 ?_
  dsimp only
  rw [if_pos (by decide), diskError, meets_bind]
  refine (@callPuts_spec firmware errorText _ _ _ ?_ ?_ ?_).mono fun printed after hafter ↦ ?_
  · dsimp only
    rw [Register.half_setHalf]
    exact hkept.error
  · dsimp only
    rw [Register.half_setHalf]
    exact image.error_ge
  · dsimp only
    rw [Register.half_setHalf]
    exact image.error_le
  · obtain ⟨-, hscreen, hrequests⟩ := hafter
    rw [meets_bind, meets_waitKey]
    exact ⟨rfl, rfl, hscreen, hrequests⟩

/-- How the boot sector ends. -/
structure Ends (firmware : Firmware) (memory : Memory) (jump : Jump) (after : Machine) : Prop where
  request : ∃ request, after.requests = [request] ∧ Asks request firmware.number
  success : firmware.succeeds ⟨79, 1, 3⟩ = true →
    jump.cs = 0x0500 ∧ jump.ip = 0 ∧ jump.regs.edx.low = firmware.number ∧ after.screen = loadingText ∧
      ∃ now, Spared 0x7C00 (noted memory firmware.number) now ∧
        after.memory = firmware.readSectors (firmware.block ⟨79, 1, 3⟩) 16 0x5000 now
  failure : firmware.succeeds ⟨79, 1, 3⟩ = false →
    jump.cs = 0xFFFF ∧ jump.ip = 0 ∧ after.screen = loadingText ++ errorText

theorem start_spec {memory : Memory} (h : InMemory image memory) {regs : Registers}
    (hdl : regs.edx.low = firmware.number) :
    Meets firmware.handle (fun _ _ ↦ True) (start image regs) ⟨memory, [], []⟩ (Ends firmware memory) := by
  refine meets_start h ?_
  rw [hdl]
  intro request now hasks hspared
  cases hsucceeds : firmware.succeeds ⟨79, 1, 3⟩ with
  | true =>
    have hnumber : now 0x7C24 = firmware.number :=
      (hspared 0x7C24 (.inr ⟨by decide, by decide⟩)).trans (Memory.store8_same memory 0x7C24 firmware.number)
    refine (enterStage2_of_success hasks hsucceeds).mono fun jump after hjump ↦ ?_
    obtain ⟨hcs, hip, hdrive, rfl⟩ := hjump
    refine ⟨⟨request, rfl, hasks⟩, fun _ ↦ ⟨hcs, hip, hdrive.trans hnumber, rfl, _, ?_, rfl⟩, fun hfails ↦ ?_⟩
    · exact hspared.trans (firmware.uses_spares 0x7C00 now)
    · exact absurd (hsucceeds.symm.trans hfails) (by decide)
  | false =>
    refine (enterStage2_of_failure hasks (hspared.inMemory (h.noted _)) hsucceeds).mono fun jump after hjump ↦ ?_
    obtain ⟨hcs, hip, hscreen, hrequests⟩ := hjump
    refine ⟨⟨request, hrequests, hasks⟩, fun hsuccess ↦ ?_, fun _ ↦ ⟨hcs, hip, hscreen⟩⟩
    exact absurd (hsucceeds.symm.trans hsuccess) (by decide)

end Run

/-- One request for 16 sectors decides where the boot sector ends. If it succeeds, the sectors are at `0x5000`,
nothing else has changed from `0x500` to `0x80000` but the stack below `0x7C00` and the number of the drive in
the parameter block, and stage 2 is entered with that number. They are the blocks from 2864 on, where stage 2
lies, exactly if the firmware has 18 sectors and 2 heads. If it fails, the machine is reset after a second
message. -/
theorem stage1_loads_iff {image : SectorImage} {memory : Memory} (h : InMemory image memory)
    (firmware : Firmware) {regs : Registers} (hdl : regs.edx.low = firmware.number) :
    ∃ jump after request,
      exec firmware.handle (start image regs) ⟨memory, [], []⟩ = some (jump, after) ∧
      after.requests = [request] ∧ request.chs = ⟨79, 1, 3⟩ ∧ request.eax.low = 16 ∧
      (firmware.succeeds ⟨79, 1, 3⟩ = true →
        jump.cs = 0x0500 ∧ jump.ip = 0 ∧ jump.regs.edx.low = firmware.number ∧ after.screen = loadingText ∧
        (∀ target : Word, (target - 0x5000).toNat < 8192 → after.memory target =
          firmware.sector (firmware.block ⟨79, 1, 3⟩ + (target - 0x5000).toNat / 512)
            ((target - 0x5000).toNat % 512)) ∧
        (∀ target : Word, 8192 ≤ (target - 0x5000).toNat → target ≠ 0x7C24 →
          0x500 ≤ target.toNat ∧ target.toNat < 0x7000 ∨ 0x7C00 ≤ target.toNat ∧ target.toNat < 0x80000 →
            after.memory target = memory target)) ∧
      (firmware.succeeds ⟨79, 1, 3⟩ = false →
        jump.cs = 0xFFFF ∧ jump.ip = 0 ∧ after.screen = loadingText ++ errorText) ∧
      (firmware.block ⟨79, 1, 3⟩ = 2864 ↔
        firmware.geometry.sectorsPerTrack.toNat = 18 ∧ firmware.geometry.numHeads.toNat = 2) := by
  obtain ⟨jump, after, hexec, hends⟩ := (start_spec h hdl).exec
  obtain ⟨request, hrequests, hasks⟩ := hends.request
  refine ⟨jump, after, request, hexec, hrequests, hasks.chs_eq, hasks.count_eq, fun hsucceeds ↦ ?_, hends.failure,
    block_eq_iff firmware⟩
  obtain ⟨hcs, hip, hdrive, hscreen, now, hspared, hmemory⟩ := hends.success hsucceeds
  refine ⟨hcs, hip, hdrive, hscreen, ?_, ?_⟩
  · intro target hinside
    rw [hmemory]
    exact if_pos hinside
  · intro target houtside hother hrange
    calc after.memory target
        = firmware.readSectors (firmware.block ⟨79, 1, 3⟩) 16 0x5000 now target := by rw [hmemory]
      _ = now target := if_neg (Nat.not_lt.mpr houtside)
      _ = noted memory firmware.number target := hspared target hrange
      _ = memory target := Memory.store8_of_ne hother

/-- The bytes of a boot sector whose messages lie at `0x7D00` and `0x7D80`. -/
def sampleSector : Memory := fun target ↦
  if target.toNat = 0x7C18 then 18
  else if target.toNat = 0x7C1A then 2
  else if 0x7D80 ≤ target.toNat then errorText.getD (target.toNat - 0x7D80) 0
  else if 0x7D00 ≤ target.toNat then loadingText.getD (target.toNat - 0x7D00) 0
  else 0

def sampleImage : SectorImage :=
  ⟨0x7D00, 0x7D80, 0x7C52, 0x7C58, 0x7CC0, by decide, by decide, by decide, by decide⟩

theorem inMemory_sampleSector : InMemory sampleImage sampleSector where
  sectors := by decide
  sectors_high := by decide
  heads := by decide
  heads_high := by decide
  loading := by decide
  error := by decide

/-- A floppy drive with the disk of the boot sector. -/
def floppyFirmware : Firmware where
  number := 0
  geometry := Disk.floppy
  sector := fun block offset ↦ .ofNat 8 (block + offset)
  succeeds := fun _ ↦ true
  leaves := fun _ _ memory ↦ memory
  leaves_outside := fun _ _ _ _ _ ↦ rfl
  returned := id
  uses := fun _ memory ↦ memory
  uses_spares := fun _ _ _ _ ↦ rfl

def bootRegisters : Registers := ⟨.ofWord 0, .ofWord 0, .ofWord 0, .ofWord 0, .ofWord 0, .ofWord 0, 0⟩

/-- From a floppy disk the blocks of stage 2 are loaded. -/
theorem stage1_loads_iff_floppy : ∃ jump after,
    exec floppyFirmware.handle (start sampleImage bootRegisters) ⟨sampleSector, [], []⟩ = some (jump, after) ∧
      jump.cs = 0x0500 ∧ after.memory 0x5200 = floppyFirmware.sector 2865 0 := by
  have hdl : bootRegisters.edx.low = floppyFirmware.number := by decide
  obtain ⟨jump, after, request, hexec, -, -, -, hsuccess, -, hblock⟩ :=
    stage1_loads_iff inMemory_sampleSector floppyFirmware hdl
  obtain ⟨hcs, -, -, -, hloaded, -⟩ := hsuccess rfl
  have hcell := hloaded 0x5200 (by decide)
  rw [hblock.mpr ⟨rfl, rfl⟩] at hcell
  exact ⟨jump, after, hexec, hcs, hcell⟩

end NeilOS.Boot
