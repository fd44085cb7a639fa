import NeilOS.Devices.Interrupts
import NeilOS.Foundation.Refine

/-!
# The interrupt controllers and the timer as chips

`pic_init`, `pit_init` and `keyboard_init` program two interrupt controllers and a timer by writing to
their ports. A controller is a small state machine: a command with bit 4 starts an initialisation, which
takes the next two or three bytes of the data port; otherwise the data port is the mask. The timer takes
its divisor in two bytes.

The handlers run with interrupts off and write end-of-interrupt commands only, so what `kmain` has set up
stays as it is, and between two interrupts no line is in service.
-/

namespace NeilOS

open Foundation Program

namespace Devices

/-! ## The chips -/

/-- What a controller takes the next byte of its data port for. -/
inductive Phase where
  | vector
  | cascade
  | mode
  | mask
deriving DecidableEq

structure Chip where
  phase : Phase
  wantsCascade : Bool
  wantsMode : Bool
  offset : Byte
  cascade : Byte
  mode : Byte
  mask : Byte
  inService : Finset (Fin 8)

namespace Chip

/-- The number of a line in the low three bits of a command. -/
def line (number : ℕ) : Fin 8 := ⟨number % 8, Nat.mod_lt number (by decide)⟩

/-- A byte to the command port. Rotating priorities and the read commands are left out. -/
def command (value : Byte) (chip : Chip) : Chip :=
  if value.getLsbD 4 then
    { chip with
      phase := .vector
      wantsCascade := !value.getLsbD 1
      wantsMode := value.getLsbD 0
      mode := 0
      mask := 0
      inService := ∅ }
  else if value.getLsbD 3 then chip
  else if value.getLsbD 5 then
    -- Bit 6 tells the specific command from the one for the highest priority.
    if value.getLsbD 6 then { chip with inService := chip.inService.erase (line value.toNat) }
    else { chip with inService := (Pics.endHighest chip.inService).getD chip.inService }
  else chip

def data (value : Byte) (chip : Chip) : Chip :=
  match chip.phase with
  | .vector =>
      { chip with
        offset := value &&& 0xF8
        phase := if chip.wantsCascade then .cascade else if chip.wantsMode then .mode else .mask }
  | .cascade => { chip with cascade := value, phase := if chip.wantsMode then .mode else .mask }
  | .mode => { chip with mode := value, phase := .mask }
  | .mask => { chip with mask := value }

/-- A request is passed on if it is not masked and of a higher priority than what is in service. -/
def accepts (line : Fin 8) (chip : Chip) : Bool :=
  chip.phase = .mask ∧ chip.mask.getLsbD line.val = false ∧ ∀ other ∈ chip.inService, line < other

def accept (line : Fin 8) (chip : Chip) : Chip :=
  { chip with inService := insert line chip.inService }

/-- The vector that the processor is given for a line. -/
def vectorOf (line : Fin 8) (chip : Chip) : Byte := chip.offset + BitVec.ofNat 8 line.val

end Chip

/-- Channel 0 of the timer, with the low byte of a divisor that waits for the high one. -/
structure Counter where
  mode : Byte
  low : Option Byte
  reload : BitVec 16

namespace Counter

/-- The command for channel 0 and both bytes; other accesses and channels are left out. -/
def command (value : Byte) (counter : Counter) : Counter :=
  if value >>> 4 = 3 then { counter with mode := value, low := none } else counter

def data (value : Byte) (counter : Counter) : Counter :=
  match counter.low with
  | none => { counter with low := some value }
  | some low => { counter with low := none, reload := value ++ low }

/-- The value that the counter starts from again, for which 0 stands for the largest divisor. With a value of
more than 1 it is the number of clock cycles from one interrupt to the next; mode 3 does not allow 1. -/
def reloadValue (counter : Counter) : ℕ := if counter.reload = 0 then 2 ^ 16 else counter.reload.toNat

end Counter

structure Board where
  master : Chip
  slave : Chip
  counter : Counter

namespace Board

def write (port : BitVec 16) (value : Byte) (board : Board) : Board :=
  if port = 0x20 then { board with master := board.master.command value }
  else if port = 0x21 then { board with master := board.master.data value }
  else if port = 0xA0 then { board with slave := board.slave.command value }
  else if port = 0xA1 then { board with slave := board.slave.data value }
  else if port = 0x43 then { board with counter := board.counter.command value }
  else if port = 0x40 then { board with counter := board.counter.data value }
  else board

/-- The data ports of the controllers read as the masks; every other port answers what it likes. -/
def read (inputs : Inputs) (reads : ℕ) (port : BitVec 16) (board : Board) : Byte :=
  if port = 0x21 then board.master.mask
  else if port = 0xA1 then board.slave.mask
  else inputs reads port

def handle (inputs : Inputs) : Handler DeviceOp DeviceOp.Answer (Board × ℕ)
  | .inb port, (board, reads) => some (board.read inputs reads port, board, reads + 1)
  | .outb port value, (board, reads) => some ((), board.write port value, reads)
  | .vga _, state => some ((), state)

/-- The slave is connected to line 2 of the master. -/
def accepts (irq : Fin 16) (board : Board) : Bool :=
  if irq.val < 8 then board.master.accepts (Chip.line irq.val)
  else board.slave.accepts (Chip.line irq.val) && board.master.accepts (Chip.line 2)

def accept (irq : Fin 16) (board : Board) : Board :=
  if irq.val < 8 then { board with master := board.master.accept (Chip.line irq.val) }
  else { board with slave := board.slave.accept (Chip.line irq.val), master := board.master.accept (Chip.line 2) }

def vectorOf (irq : Fin 16) (board : Board) : Byte :=
  if irq.val < 8 then board.master.vectorOf (Chip.line irq.val)
  else board.slave.vectorOf (Chip.line irq.val)

end Board

/-! ## The programs -/

def picInit : DeviceProgram Unit := do
  outb 0x20 0x11
  outb 0xA0 0x11
  outb 0x21 0x20
  outb 0xA1 0x28
  outb 0x21 0x04
  outb 0xA1 0x02
  outb 0x21 0x01
  outb 0xA1 0x01
  outb 0x21 0xFC
  outb 0xA1 0xFF

/-- `PIT_BASE_FREQUENCY`. -/
def pitBaseFrequency : Word := 1193182

/-- The division by a frequency of 0 would trap. -/
def pitInit (frequency : Word) : DeviceProgram Unit := do
  let divisor := pitBaseFrequency / frequency
  outb 0x43 0x36
  outb 0x40 ((divisor &&& 0xFF).setWidth 8)
  outb 0x40 (((divisor >>> 8) &&& 0xFF).setWidth 8)

def keyboardInit : DeviceProgram Unit := do
  let mask ← inb 0x21
  outb 0x21 (mask &&& ~~~((1 : Byte) <<< 1))

/-- The calls of `kmain` that program the devices, in its order. -/
def devicesInit : DeviceProgram Unit := do
  picInit
  pitInit (.ofNat 32 pitFrequency)
  keyboardInit

/-! ## After the initialisation -/

structure Chip.Configured (offset cascade mask : Byte) (chip : Chip) : Prop where
  phase : chip.phase = .mask
  offset : chip.offset = offset
  cascade : chip.cascade = cascade
  mode : chip.mode = 0x01
  mask : chip.mask = mask

/-- Lines 0 and 1 are open; the slave reports on line 2 and knows it. -/
structure Board.Configured (board : Board) : Prop where
  master : board.master.Configured 0x20 0x04 0xFC
  slave : board.slave.Configured 0x28 0x02 0xFF
  counter : board.counter = ⟨0x36, none, 1193⟩

section Init

variable (inputs : Inputs) (board : Board) (reads : ℕ)

/-- Whatever the chips were doing, the first byte starts them afresh. -/
theorem picInit_spec : ∃ after, exec (Board.handle inputs) picInit (board, reads) = some ((), after, reads) ∧
    after.master = ⟨.mask, true, true, 0x20, 0x04, 0x01, 0xFC, ∅⟩ ∧
    after.slave = ⟨.mask, true, true, 0x28, 0x02, 0x01, 0xFF, ∅⟩ ∧ after.counter = board.counter :=
  ⟨_, rfl, rfl, rfl, rfl⟩

/-- The divisor as the timer takes it. -/
def divisorBytes (frequency : Word) : BitVec 16 :=
  (((pitBaseFrequency / frequency) >>> 8) &&& 0xFF).setWidth 8 ++
    ((pitBaseFrequency / frequency) &&& 0xFF).setWidth 8

theorem pitInit_spec (frequency : Word) :
    ∃ after, exec (Board.handle inputs) (pitInit frequency) (board, reads) = some ((), after, reads) ∧
      after.master = board.master ∧ after.slave = board.slave ∧
      after.counter = ⟨0x36, none, divisorBytes frequency⟩ :=
  ⟨_, rfl, rfl, rfl, rfl⟩

theorem keyboardInit_spec (hphase : board.master.phase = .mask) :
    ∃ after, exec (Board.handle inputs) keyboardInit (board, reads) = some ((), after, reads + 1) ∧
      after.master = { board.master with mask := board.master.mask &&& 0xFD } ∧
      after.slave = board.slave ∧ after.counter = board.counter := by
  refine ⟨_, rfl, ?_, rfl, rfl⟩
  change Chip.data (board.master.mask &&& 0xFD) board.master = _
  simp only [Chip.data, hphase]

theorem devicesInit_spec :
    ∃ after, exec (Board.handle inputs) devicesInit (board, reads) = some ((), after, reads + 1) ∧
      after.Configured ∧ after.master.inService = ∅ ∧ after.slave.inService = ∅ := by
  obtain ⟨first, hfirst, hmaster, hslave, -⟩ := picInit_spec inputs board reads
  obtain ⟨second, hsecond, hmaster', hslave', hcounter⟩ :=
    pitInit_spec inputs first reads (.ofNat 32 pitFrequency)
  rw [hmaster] at hmaster'
  rw [hslave] at hslave'
  obtain ⟨after, hafter, hmaster'', hslave'', hcounter'⟩ :=
    keyboardInit_spec inputs second reads (by rw [hmaster'])
  rw [hmaster'] at hmaster''
  rw [hslave'] at hslave''
  rw [hcounter] at hcounter'
  have hexec : exec (Board.handle inputs) devicesInit (board, reads) = some ((), after, reads + 1) := by
    rw [devicesInit, exec_bind, hfirst, Option.bind_some, exec_bind, hsecond, Option.bind_some]
    exact hafter
  refine ⟨after, hexec, ⟨?_, ?_, ?_⟩, ?_, ?_⟩
  · rw [hmaster'']
    exact ⟨rfl, rfl, rfl, rfl, by decide⟩
  · rw [hslave'']
    exact ⟨rfl, rfl, rfl, rfl, rfl⟩
  · rw [hcounter']
    exact congrArg (Counter.mk 0x36 none) (by decide)
  · rw [hmaster'']
  · rw [hslave'']

end Init

/-! ## The handlers leave the programming alone -/

/-- The operations of the handlers: the only writes to the chips end an interrupt. -/
def DeviceOp.harmless : DeviceOp → Bool
  | .inb _ | .vga _ => true
  | .outb port value => port = 0x60 ∨ (port = 0x20 ∧ value = 0x20) ∨ (port = 0xA0 ∧ value = 0x20)

section Only

theorem only_picSendEoi (irq : Byte) : (picSendEoi irq).Only fun op ↦ op.harmless = true := by
  unfold picSendEoi
  split_ifs
  · exact ⟨rfl, fun _ ↦ ⟨rfl, fun _ ↦ trivial⟩⟩
  · exact ⟨rfl, fun _ ↦ trivial⟩

theorem only_pollStatus (mask : Byte) (attempts : ℕ) :
    (pollStatus mask attempts).Only fun op ↦ op.harmless = true := by
  induction attempts with
  | zero => exact only_pure _
  | succ attempts ih =>
    refine ⟨rfl, fun (status : Byte) ↦ ?_⟩
    change Only _ (if status &&& mask ≠ 0 then _ else _ : DeviceProgram Bool)
    split_ifs
    · exact only_pure _
    · exact ih

theorem only_awaitAcknowledge (attempts : ℕ) :
    (awaitAcknowledge attempts).Only fun op ↦ op.harmless = true := by
  induction attempts with
  | zero => exact only_pure _
  | succ attempts ih =>
    refine ⟨rfl, fun (status : Byte) ↦ ?_⟩
    change Only _ (if status &&& 0x01 ≠ 0 then _ else _ : DeviceProgram (Option Bool))
    split_ifs
    · refine ⟨rfl, fun (status : Byte) ↦ ?_⟩
      change Only _ (if status &&& 0xFA ≠ 0 then _ else _ : DeviceProgram (Option Bool))
      split_ifs
      · exact only_pure _
      · exact only_pure _
    · exact ih

theorem only_keyboardSetCapsLockLed (capsLockEnabled : Bool) :
    (keyboardSetCapsLockLed capsLockEnabled).Only fun op ↦ op.harmless = true := by
  have hwrite (value : Byte) : (outb 0x60 value).Only fun op ↦ op.harmless = true :=
    ⟨rfl, fun _ ↦ trivial⟩
  have hwait {α : Type} (next : Bool → DeviceProgram α)
      (hnext : ∀ clear, (next clear).Only fun op ↦ op.harmless = true) :
      (keyboardWaitInputClear >>= next).Only fun op ↦ op.harmless = true :=
    (only_pollStatus 0x02 100000).bind hnext
  apply hwait
  intro clear
  cases clear with
  | false => exact only_pure _
  | true =>
    refine (hwrite 0xED).bind fun _ ↦ (only_awaitAcknowledge 100000).bind fun acknowledged ↦ ?_
    split
    · apply hwait
      intro clear
      cases clear with
      | false => exact only_pure _
      | true => exact hwrite _
    · exact only_pure _

theorem only_keyboardHandlerExtended (scancode : Byte) :
    (keyboardHandlerExtended scancode).Only fun op ↦ op.harmless = true := by
  unfold keyboardHandlerExtended
  split_ifs
  all_goals first | exact only_pure _ | exact ⟨rfl, fun _ ↦ trivial⟩

theorem only_keyboardPrint (keyboard : Keyboard) (scancode : Byte) :
    (keyboardPrint keyboard scancode).Only fun op ↦ op.harmless = true := by
  unfold keyboardPrint
  dsimp only
  split_ifs
  all_goals first | exact only_pure _ | exact ⟨rfl, fun _ ↦ trivial⟩

theorem only_keyboardHandler (keyboard : Keyboard) :
    (keyboardHandler keyboard).Only fun op ↦ op.harmless = true := by
  have hend (value : Keyboard) :
      (picSendEoi 1 >>= fun _ ↦ pure value : DeviceProgram Keyboard).Only fun op ↦ op.harmless = true :=
    (only_picSendEoi 1).bind fun _ ↦ only_pure value
  refine ⟨rfl, fun (scancode : Byte) ↦ ?_⟩
  change Only _ (if scancode = 0xE0 then _ else _ : DeviceProgram Keyboard)
  by_cases hprefixed : scancode = 0xE0
  · rw [if_pos hprefixed]
    exact hend _
  rw [if_neg hprefixed]
  by_cases hextended : keyboard.extendedScancode = true
  · rw [if_pos hextended]
    exact (only_keyboardHandlerExtended scancode).bind fun _ ↦ hend _
  rw [if_neg hextended]
  by_cases hreleased : scancode &&& 0x80 ≠ 0
  · rw [if_pos hreleased]
    exact hend _
  rw [if_neg hreleased]
  split_ifs
  · exact hend _
  · exact hend _
  · exact (only_keyboardSetCapsLockLed _).bind fun _ ↦ hend _
  · exact (only_keyboardPrint keyboard scancode).bind fun _ ↦ hend _

end Only

/-- The programming stays, and no line comes into service. -/
structure Board.Kept (before after : Board) : Prop where
  master : after.master = { before.master with inService := after.master.inService }
  slave : after.slave = { before.slave with inService := after.slave.inService }
  counter : after.counter = before.counter
  masterService : after.master.inService ⊆ before.master.inService
  slaveService : after.slave.inService ⊆ before.slave.inService

theorem endHighest_subset (inService : Finset (Fin 8)) :
    (Pics.endHighest inService).getD inService ⊆ inService := by
  unfold Pics.endHighest
  split_ifs
  · exact Finset.erase_subset _ _
  · exact Finset.Subset.refl _

/-- Of at most one line in service none is left. -/
theorem endHighest_of_subset {inService : Finset (Fin 8)} {line : Fin 8} (h : inService ⊆ {line}) :
    (Pics.endHighest inService).getD inService = ∅ := by
  rcases Finset.subset_singleton_iff.mp h with rfl | rfl
  · rfl
  · simp [Pics.endHighest]

namespace Board.Kept

theorem refl (board : Board) : Kept board board :=
  ⟨rfl, rfl, rfl, Finset.Subset.refl _, Finset.Subset.refl _⟩

theorem trans {first second third : Board} (h : Kept first second) (hnext : Kept second third) :
    Kept first third where
  master := by
    rw [hnext.master, h.master]
  slave := by
    rw [hnext.slave, h.slave]
  counter := hnext.counter.trans h.counter
  masterService := hnext.masterService.trans h.masterService
  slaveService := hnext.slaveService.trans h.slaveService

theorem of_harmless {inputs : Inputs} {state : Board × ℕ} {op : DeviceOp} {reply : op.Answer × Board × ℕ}
    (hop : op.harmless = true) (hreply : Board.handle inputs op state = some reply) :
    Kept state.1 reply.2.1 := by
  cases op with
  | inb port =>
    obtain rfl := Option.some.inj hreply
    exact .refl _
  | vga call =>
    obtain rfl := Option.some.inj hreply
    exact .refl _
  | outb port value =>
    obtain rfl := Option.some.inj hreply
    rcases of_decide_eq_true hop with rfl | ⟨rfl, rfl⟩ | ⟨rfl, rfl⟩
    · exact .refl _
    · exact ⟨rfl, rfl, rfl, endHighest_subset _, Finset.Subset.refl _⟩
    · exact ⟨rfl, rfl, rfl, Finset.Subset.refl _, endHighest_subset _⟩

theorem of_only {α : Type} {program : DeviceProgram α} (h : program.Only fun op ↦ op.harmless = true)
    (inputs : Inputs) (state : Board × ℕ) :
    Meets (Board.handle inputs) (fun _ op ↦ op.harmless = true) program state fun _ after ↦
      Kept state.1 after.1 := by
  have htotal (op : DeviceOp) (state : Board × ℕ) : ∃ reply, Board.handle inputs op state = some reply := by
    cases op <;> exact ⟨_, rfl⟩
  let kept (before after : Board × ℕ) : Prop := Kept before.1 after.1
  have hrefl (state : Board × ℕ) : kept state state := refl state.1
  have htrans (first second third : Board × ℕ) : kept first second → kept second third →
      kept first third := trans
  have hop (before : Board × ℕ) (op : DeviceOp) (reply : op.Answer × Board × ℕ) : op.harmless = true →
      Board.handle inputs op before = some reply → kept before reply.2 := of_harmless
  exact ((h.meets htotal state).preserve hrefl htrans hop).mono fun _ _ hafter ↦ hafter.2

end Board.Kept

section Handler

variable {inputs : Inputs} {board : Board} {reads : ℕ} {line : Fin 8}

/-- The command for a line of the master. -/
theorem picSendEoi_ends {irq : Byte} (hline : irq.toNat < 8)
    (hservice : board.master.inService ⊆ {line}) :
    Meets (Board.handle inputs) (fun _ op ↦ op.harmless = true) (picSendEoi irq) (board, reads)
      fun _ after ↦ board.Kept after.1 ∧ after.1.master.inService = ∅ := by
  have hmaster : ¬ 8 ≤ irq.toNat := Nat.not_le.mpr hline
  have hwrite : board.Kept (board.write 0x20 0x20) :=
    ⟨rfl, rfl, rfl, endHighest_subset _, Finset.Subset.refl _⟩
  rw [picSendEoi, if_neg hmaster]
  exact ⟨rfl, _, rfl, hwrite, endHighest_of_subset hservice⟩

/-- The handler of the timer or of the keyboard ends its interrupt, whatever it reads. -/
theorem interruptHandler_ends {regs : Word} {kernel : Kernel}
    (hnumber : kernel.scheduler.memory.load32 (regs + 32) = 32 ∨
      kernel.scheduler.memory.load32 (regs + 32) = 33)
    (hservice : board.master.inService ⊆ {line}) :
    Meets (Board.handle inputs) (fun _ op ↦ op.harmless = true) (interruptHandler regs kernel) (board, reads)
      fun _ after ↦ board.Kept after.1 ∧ after.1.master.inService = ∅ := by
  have hzero : (0 : Byte).toNat < 8 := by decide
  have hone : (1 : Byte).toNat < 8 := by decide
  unfold interruptHandler
  dsimp only
  rcases hnumber with htick | hkeyboard
  · rw [htick, if_pos rfl]
    exact (picSendEoi_ends hzero hservice).bind fun _ _ hafter ↦ hafter
  · have hother : (33 : Word) ≠ 32 := by decide
    rw [hkeyboard, if_neg hother, if_pos rfl]
    refine (Board.Kept.of_only (only_keyboardHandler kernel.keyboard) inputs (board, reads)).bind ?_
    intro keyboard middle hmiddle
    refine (picSendEoi_ends hone (hmiddle.masterService.trans hservice)).bind fun _ after hafter ↦ ?_
    exact ⟨hmiddle.trans hafter.1, hafter.2⟩

/-- The other vectors do not reach the controllers. -/
theorem interruptHandler_other {regs : Word} {kernel : Kernel} {value : Word × Kernel} {after : Board × ℕ}
    (hnumber : ¬ (32 ≤ (kernel.scheduler.memory.load32 (regs + 32)).toNat ∧
      (kernel.scheduler.memory.load32 (regs + 32)).toNat ≤ 47))
    (hexec : exec (Board.handle inputs) (interruptHandler regs kernel) (board, reads) =
      some (value, after)) : after = (board, reads) := by
  unfold interruptHandler at hexec
  dsimp only at hexec
  generalize kernel.scheduler.memory.load32 (regs + 32) = number at hnumber hexec
  have htick : number ≠ 32 := by
    rintro rfl
    exact hnumber (by decide)
  have hkeyboard : number ≠ 33 := by
    rintro rfl
    exact hnumber (by decide)
  have hline : ¬ (34 ≤ number.toNat ∧ number.toNat ≤ 47) := by omega
  rw [if_neg htick, if_neg hkeyboard] at hexec
  split_ifs at hexec
  all_goals exact (Prod.mk.inj (Option.some.inj hexec)).2.symm

end Handler

/-! ## Runs -/

inductive LineEvent where
  | irq (irq : Fin 16) (vector : Byte)
  | other (number : Word)

/-- The board that `kmain` leaves when it enables interrupts, whatever it found. -/
def Board.Initial (board : Board) : Prop :=
  ∃ before inputs reads, exec (Board.handle inputs) devicesInit (before, 0) = some ((), board, reads)

/-- A line is served from the acknowledgement to the end of the handler, or an interrupt comes that is
not from the controllers. The gates are interrupt gates, so no other interrupt comes between. -/
inductive Board.Step : Board → LineEvent → Board → Prop where
  | irq {board after : Board} {irq : Fin 16} {inputs : Inputs} {regs : Word} {kernel : Kernel}
      {value : Word × Kernel} {reads : ℕ} : board.accepts irq = true →
      kernel.scheduler.memory.load32 (regs + 32) = (board.vectorOf irq).setWidth 32 →
      exec (Board.handle inputs) (interruptHandler regs kernel) (board.accept irq, 0) =
        some (value, after, reads) →
        Board.Step board (.irq irq (board.vectorOf irq)) after
  | other {board after : Board} {inputs : Inputs} {regs : Word} {kernel : Kernel}
      {value : Word × Kernel} {reads : ℕ} :
      ¬ (32 ≤ (kernel.scheduler.memory.load32 (regs + 32)).toNat ∧
        (kernel.scheduler.memory.load32 (regs + 32)).toNat ≤ 47) →
      exec (Board.handle inputs) (interruptHandler regs kernel) (board, 0) = some (value, after, reads) →
        Board.Step board (.other (kernel.scheduler.memory.load32 (regs + 32))) after

/-- Programmed, and nothing in service. -/
structure Board.Ready (board : Board) : Prop where
  configured : board.Configured
  master : board.master.inService = ∅
  slave : board.slave.inService = ∅

namespace Board.Ready

variable {board after : Board}

theorem initial (h : board.Initial) : board.Ready := by
  obtain ⟨before, inputs, reads, hexec⟩ := h
  obtain ⟨last, hlast, hconfigured, hmaster, hslave⟩ := devicesInit_spec inputs before 0
  rw [hlast] at hexec
  obtain rfl := (Prod.mk.inj (Prod.mk.inj (Option.some.inj hexec)).2).1
  exact ⟨hconfigured, hmaster, hslave⟩

theorem accepts_iff (h : board.Ready) (irq : Fin 16) : board.accepts irq = true ↔ irq = 0 ∨ irq = 1 := by
  have hmaster (line : Fin 8) : board.master.accepts line = decide (line = 0 ∨ line = 1) := by
    simp only [Chip.accepts, h.configured.master.phase, h.configured.master.mask, h.master]
    revert line
    decide
  have hslave (line : Fin 8) : board.slave.accepts line = false := by
    simp only [Chip.accepts, h.configured.slave.phase, h.configured.slave.mask, h.slave]
    revert line
    decide
  simp only [Board.accepts, hmaster, hslave]
  revert irq
  decide

theorem vectorOf_eq (h : board.Ready) {irq : Fin 16} (hirq : irq = 0 ∨ irq = 1) :
    board.vectorOf irq = BitVec.ofNat 8 (32 + irq.val) := by
  have hoffset := h.configured.master.offset
  rcases hirq with rfl | rfl
  · simp [Board.vectorOf, Chip.vectorOf, Chip.line, hoffset]
  · simp [Board.vectorOf, Chip.vectorOf, Chip.line, hoffset]

theorem of_kept (h : board.Ready) {line : Fin 8} {middle : Board}
    (hmaster : middle.master = board.master.accept line) (hslave : middle.slave = board.slave)
    (hcounter : middle.counter = board.counter) (hkept : middle.Kept after)
    (hended : after.master.inService = ∅) : after.Ready where
  configured := by
    obtain ⟨⟨hphase, hoffset, hcascade, hmode, hmask⟩, ⟨hphase', hoffset', hcascade', hmode', hmask'⟩,
      hreload⟩ := h.configured
    refine ⟨?_, ?_, hkept.counter.trans (hcounter.trans hreload)⟩
    · rw [hkept.master, hmaster]
      exact ⟨hphase, hoffset, hcascade, hmode, hmask⟩
    · rw [hkept.slave, hslave]
      exact ⟨hphase', hoffset', hcascade', hmode', hmask'⟩
  master := hended
  slave := by
    have hservice := hkept.slaveService
    rw [hslave, h.slave] at hservice
    exact Finset.subset_empty.mp hservice

/-- An accepted line is served to its end, and the controllers are ready again. -/
theorem serves (h : board.Ready) {irq : Fin 16} (haccepts : board.accepts irq = true) (inputs : Inputs)
    {regs : Word} {kernel : Kernel}
    (hnumber : kernel.scheduler.memory.load32 (regs + 32) = (board.vectorOf irq).setWidth 32) :
    Meets (Board.handle inputs) (fun _ op ↦ op.harmless = true) (interruptHandler regs kernel)
      (board.accept irq, 0) fun _ after ↦ after.1.Ready := by
  have hirq := (h.accepts_iff irq).mp haccepts
  rw [h.vectorOf_eq hirq] at hnumber
  have hlow : irq.val < 8 := by
    rcases hirq with rfl | rfl <;> decide
  have haccept : board.accept irq =
      { board with master := board.master.accept (Chip.line irq.val) } := if_pos hlow
  have hservice : (board.accept irq).master.inService ⊆ {Chip.line irq.val} := by
    rw [haccept, Chip.accept, h.master]
    exact Finset.Subset.refl _
  have hvector : kernel.scheduler.memory.load32 (regs + 32) = 32 ∨
      kernel.scheduler.memory.load32 (regs + 32) = 33 := by
    rw [hnumber]
    rcases hirq with rfl | rfl
    · exact .inl rfl
    · exact .inr rfl
  refine (interruptHandler_ends hvector hservice).mono fun _ after hafter ↦ ?_
  exact h.of_kept (by rw [haccept]) (by rw [haccept]) (by rw [haccept]) hafter.1 hafter.2

theorem step {event : LineEvent} (h : board.Ready) (hstep : Board.Step board event after) :
    after.Ready := by
  cases hstep with
  | irq haccepts hnumber hexec => exact (h.serves haccepts _ hnumber).of_exec hexec
  | other hnumber hexec =>
    obtain ⟨rfl, -⟩ := Prod.mk.inj (interruptHandler_other hnumber hexec)
    exact h

end Board.Ready

theorem ready_of_run {history : List LineEvent} {board : Board}
    (hrun : Run Board.Initial Board.Step history board) : board.Ready :=
  hrun.invariant Board.Ready (fun _ ↦ Board.Ready.initial) fun _ _ _ ↦ Board.Ready.step

/-- However the devices were left by the firmware and whatever they answer: along every run the
controllers stay as programmed, nothing is in service between two interrupts, and so the timer's and the
keyboard's line are always passed on, as vectors 32 and 33, and no other line ever is. -/
theorem irq_lines_stay_ready {history : List LineEvent} {board : Board}
    (hrun : Run Board.Initial Board.Step history board) :
    board.Configured ∧ board.master.inService = ∅ ∧ board.slave.inService = ∅ ∧
      (∀ irq, board.accepts irq = true ↔ irq = 0 ∨ irq = 1) ∧
      (∀ irq vector, .irq irq vector ∈ history → irq = 0 ∧ vector = 32 ∨ irq = 1 ∧ vector = 33) ∧
      ∀ irq, board.accepts irq = true → ∀ (inputs : Inputs) (regs : Word) (kernel : Kernel),
        kernel.scheduler.memory.load32 (regs + 32) = (board.vectorOf irq).setWidth 32 →
          ∃ value after reads, exec (Board.handle inputs) (interruptHandler regs kernel)
            (board.accept irq, 0) = some (value, after, reads) ∧ after.Ready := by
  have hready := ready_of_run hrun
  refine ⟨hready.configured, hready.master, hready.slave, hready.accepts_iff, ?_, ?_⟩
  · intro irq vector hmem
    obtain ⟨newer, older, rfl⟩ := List.append_of_mem hmem
    obtain ⟨after, hlast⟩ := hrun.suffix
    cases hlast with
    | step hbefore hstep =>
      cases hstep with
      | irq haccepts _ _ =>
        have hbefore := ready_of_run hbefore
        have hirq := (hbefore.accepts_iff irq).mp haccepts
        rw [hbefore.vectorOf_eq hirq]
        rcases hirq with rfl | rfl
        · exact .inl ⟨rfl, rfl⟩
        · exact .inr ⟨rfl, rfl⟩
  · intro irq haccepts inputs regs kernel hnumber
    obtain ⟨value, state, hexec, hafter⟩ := (hready.serves haccepts inputs hnumber).exec
    exact ⟨value, state.1, state.2, hexec, hafter⟩

/-- The frame at address 0 has a number at offset 32. -/
def frameWith (number : Word) : Kernel :=
  { keyboard := .booted
    ticks := 0
    scheduler :=
      { tasks := fun _ ↦ ⟨0, 0, .terminated⟩
        idleTask := ⟨0, 0, .running⟩
        curTask := some .idle
        nextTaskID := 1
        schedulerTicks := 0
        memory := Memory.store32 (fun _ ↦ 0) 32 number } }

/-- The firmware has its own vectors, an interrupt in service and an initialisation half done. -/
def firmwareBoard : Board :=
  ⟨⟨.mask, true, true, 0x08, 0x04, 0x01, 0xB8, {Chip.line 1}⟩, ⟨.cascade, true, true, 0x70, 0x02, 0x01, 0x8F, ∅⟩,
    ⟨0x36, some 0, 0⟩⟩

/-- A timer and then a keyboard interrupt. -/
theorem irq_lines_stay_ready_two_lines : ∃ board,
    Run Board.Initial Board.Step [.irq 1 33, .irq 0 32] board ∧ board.accepts 1 = true ∧
      board.accepts 7 = false := by
  let inputs : Inputs := fun _ _ ↦ 0x1E
  have haddress : (0 : Word) + 32 = 32 := by decide
  have hnumber (number : Word) : (frameWith number).scheduler.memory.load32 (0 + 32) = number := by
    rw [haddress]
    exact Memory.load32_store32 ..
  obtain ⟨board, hexec, -⟩ := devicesInit_spec inputs firmwareBoard 0
  have hstart : Run Board.Initial Board.Step [] board := .start ⟨firmwareBoard, inputs, _, hexec⟩
  have hready := ready_of_run hstart
  have htimer := (hready.accepts_iff 0).mpr (.inl rfl)
  have hfirst := hready.vectorOf_eq (.inl rfl : (0 : Fin 16) = 0 ∨ (0 : Fin 16) = 1)
  obtain ⟨_, second, _, hserved, hready⟩ := (irq_lines_stay_ready hstart).2.2.2.2.2 0 htimer inputs 0
    (frameWith 32) (by rw [hnumber, hfirst]; decide)
  have hrun := hstart.step (.irq htimer (by rw [hnumber, hfirst]; decide) hserved)
  have hkeyboard := (hready.accepts_iff 1).mpr (.inr rfl)
  have hvector := hready.vectorOf_eq (.inr rfl : (1 : Fin 16) = 0 ∨ (1 : Fin 16) = 1)
  obtain ⟨_, third, _, hserved, hready⟩ := (irq_lines_stay_ready hrun).2.2.2.2.2 1 hkeyboard inputs 0
    (frameWith 33) (by rw [hnumber, hvector]; decide)
  have hrun := hrun.step (.irq hkeyboard (by rw [hnumber, hvector]; decide) hserved)
  rw [hfirst, hvector] at hrun
  have hthird := (irq_lines_stay_ready hrun).2.2.2.1
  refine ⟨third, hrun, (hthird 1).mpr (.inr rfl), Bool.eq_false_of_not_eq_true fun h ↦ ?_⟩
  exact absurd ((hthird 7).mp h) (by decide)

/-- The two bytes are the low half of the divisor. -/
theorem divisorBytes_eq (frequency : Word) :
    divisorBytes frequency = (pitBaseFrequency / frequency).setWidth 16 :=
  Word.append_halves (pitBaseFrequency / frequency) 8

theorem divisor_lt_iff {frequency : ℕ} (hfrequency : 0 < frequency) :
    1193182 / frequency < 2 ^ 16 ↔ 19 ≤ frequency := by
  rw [Nat.div_lt_iff_lt_mul hfrequency]
  omega

theorem divisor_pos_iff {frequency : ℕ} (hfrequency : 0 < frequency) :
    0 < 1193182 / frequency ↔ frequency ≤ 1193182 := by
  rw [Nat.div_pos_iff]
  omega

/-- No frequency has the divisor that 0 stands for. -/
theorem divisor_ne {frequency : ℕ} (hfrequency : 0 < frequency) : 1193182 / frequency ≠ 2 ^ 16 := by
  intro heq
  have hlow := (Nat.le_div_iff_mul_le hfrequency).mp (Nat.le_of_eq heq.symm)
  have hhigh := (Nat.div_lt_iff_lt_mul hfrequency).mp (Nat.lt_of_le_of_lt (Nat.le_of_eq heq) (Nat.lt_succ_self _))
  omega

/-- The timer reloads with the divisor of the requested rate just for the frequencies whose divisor has 16 bits
and is not 0. -/
theorem pit_divisor_iff (inputs : Inputs) (board : Board) {frequency : Word} (hfrequency : frequency ≠ 0) :
    ∃ after, exec (Board.handle inputs) (pitInit frequency) (board, 0) = some ((), after, 0) ∧
      (after.counter.reloadValue = 1193182 / frequency.toNat ↔
        19 ≤ frequency.toNat ∧ frequency.toNat ≤ 1193182) := by
  obtain ⟨after, hexec, -, -, hcounter⟩ := pitInit_spec inputs board 0 frequency
  refine ⟨after, hexec, ?_⟩
  have hpositive : 0 < frequency.toNat := by
    have hne : frequency.toNat ≠ 0 := fun hzero ↦ hfrequency (BitVec.eq_of_toNat_eq hzero)
    omega
  have hreload : after.counter.reload.toNat = 1193182 / frequency.toNat % 2 ^ 16 := by
    rw [hcounter, divisorBytes_eq, BitVec.toNat_setWidth, BitVec.toNat_udiv]
    rfl
  have hzero : after.counter.reload = 0 ↔ 1193182 / frequency.toNat % 2 ^ 16 = 0 := by
    rw [← hreload]
    exact ⟨fun h ↦ by rw [h]; rfl, fun h ↦ BitVec.eq_of_toNat_eq h⟩
  have hne := divisor_ne hpositive
  rw [← divisor_lt_iff hpositive, ← divisor_pos_iff hpositive, Counter.reloadValue, hreload]
  simp only [hzero]
  split_ifs <;> omega

/-- At `PIT_FREQUENCY` the timer divides its clock by 1193. -/
theorem pit_divisor_iff_1000 : ∃ after,
    exec (Board.handle fun _ _ ↦ 0) (pitInit 1000) (firmwareBoard, 0) = some ((), after, 0) ∧
      after.counter.reloadValue = 1193 := by
  have hfrequency : (1000 : Word) ≠ 0 := by decide
  obtain ⟨after, hexec, hvalue⟩ := pit_divisor_iff (fun _ _ ↦ 0) firmwareBoard hfrequency
  exact ⟨after, hexec, hvalue.mpr (by decide)⟩

end Devices

end NeilOS
