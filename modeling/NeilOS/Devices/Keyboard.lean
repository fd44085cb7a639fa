import NeilOS.Devices.Ports

/-!
# The keyboard driver

The static variables of `keyboard.c` are a `Keyboard`, which the functions take and return. The status
port is `0x64` and the data port `0x60`.
-/

namespace NeilOS

open Foundation Program
open Terminal (ascii)

namespace Devices

structure Keyboard where
  extendedScancode : Bool
  leftShiftPressed : Bool
  rightShiftPressed : Bool
  capsLockEnabled : Bool

/-- The static variables at boot. -/
def Keyboard.booted : Keyboard := ⟨false, false, false, false⟩

/-- An initialiser of a `char` array; the escape key has the code 27, and the rest is zero. -/
def keyTable (row : List Char) : List Byte := row.map ascii

def keyboardMap (scancode : Byte) : Byte :=
  (keyTable
    ['\x00', '\x1b', '1', '2', '3', '4', '5', '6', '7', '8', '9', '0', '-', '=', '\x08', '\t',
      'q', 'w', 'e', 'r', 't', 'y', 'u', 'i', 'o', 'p', '[', ']', '\n', '\x00',
      'a', 's', 'd', 'f', 'g', 'h', 'j', 'k', 'l', ';', '\'', '\x60', '\x00', '\\',
      'z', 'x', 'c', 'v', 'b', 'n', 'm', ',', '.', '/', '\x00', '*', '\x00', ' ']).getD
    scancode.toNat 0

def keyboardShiftMap (scancode : Byte) : Byte :=
  (keyTable
    ['\x00', '\x1b', '!', '@', '#', '$', '%', '^', '&', '*', '(', ')', '_', '+', '\x08', '\t',
      'Q', 'W', 'E', 'R', 'T', 'Y', 'U', 'I', 'O', 'P', '{', '}', '\n', '\x00',
      'A', 'S', 'D', 'F', 'G', 'H', 'J', 'K', 'L', ':', '"', '~', '\x00', '|',
      'Z', 'X', 'C', 'V', 'B', 'N', 'M', '<', '>', '?', '\x00', '*', '\x00', ' ']).getD
    scancode.toNat 0

/-! ## The Caps Lock light -/

/-- A loop that reads the status port until a bit of it is set. -/
def pollStatus (mask : Byte) : ℕ → DeviceProgram Bool
  | 0 => pure false
  | attempts + 1 => do
    let status ← inb 0x64
    if status &&& mask ≠ 0 then pure true
    else pollStatus mask attempts

def keyboardWaitInputClear : DeviceProgram Bool := pollStatus 0x02 100000

/-- The loop that waits for the acknowledgement, as it is in the source: what it looks at is the status
port once more. `none` is its `return`. -/
def awaitAcknowledge : ℕ → DeviceProgram (Option Bool)
  | 0 => pure (some false)
  | attempts + 1 => do
    let status ← inb 0x64
    if status &&& 0x01 ≠ 0 then do
      let status ← inb 0x64
      if status &&& 0xFA ≠ 0 then pure none
      else pure (some true)
    else awaitAcknowledge attempts

def keyboardSetCapsLockLed (capsLockEnabled : Bool) : DeviceProgram Unit := do
  if ← keyboardWaitInputClear then do
    outb 0x60 0xED
    match ← awaitAcknowledge 100000 with
    | some true => do
      if ← keyboardWaitInputClear then
        outb 0x60 (if capsLockEnabled then 0x04 else 0x00)
    | _ => pure ()

/-! ## The interrupt handler -/

def keyboardHandlerExtended (scancode : Byte) : DeviceProgram Unit :=
  if scancode &&& 0x80 ≠ 0 then pure ()
  else if scancode = 0x48 then vga .scrollUp
  else if scancode = 0x49 then vga .pageUp
  else if scancode = 0x50 then vga .scrollDown
  else if scancode = 0x51 then vga .pageDown
  else pure ()

/-- The end of `keyboard_handler`: the character of a key, if it has one. -/
def keyboardPrint (keyboard : Keyboard) (scancode : Byte) : DeviceProgram Unit :=
  let shiftPressed := keyboard.leftShiftPressed || keyboard.rightShiftPressed
  if scancode.toNat < 128 then
    let c := if shiftPressed then keyboardShiftMap scancode else keyboardMap scancode
    if c ≠ 0 then vga (.putchar c) else pure ()
  else pure ()

def keyboardHandler (keyboard : Keyboard) : DeviceProgram Keyboard := do
  let scancode ← inb 0x60
  if scancode = 0xE0 then do
    picSendEoi 1
    pure { keyboard with extendedScancode := true }
  else if keyboard.extendedScancode then do
    keyboardHandlerExtended scancode
    picSendEoi 1
    pure { keyboard with extendedScancode := false }
  else if scancode &&& 0x80 ≠ 0 then do
    let released := scancode &&& 0x7F
    let keyboard := if released = 42 then { keyboard with leftShiftPressed := false } else keyboard
    let keyboard := if released = 54 then { keyboard with rightShiftPressed := false } else keyboard
    picSendEoi 1
    pure keyboard
  else if scancode = 42 then do
    picSendEoi 1
    pure { keyboard with leftShiftPressed := true }
  else if scancode = 54 then do
    picSendEoi 1
    pure { keyboard with rightShiftPressed := true }
  else if scancode = 58 then do
    let keyboard := { keyboard with capsLockEnabled := !keyboard.capsLockEnabled }
    keyboardSetCapsLockLed keyboard.capsLockEnabled
    picSendEoi 1
    pure keyboard
  else do
    keyboardPrint keyboard scancode
    picSendEoi 1
    pure keyboard

example : keyboardMap 0x1E = ascii 'a' ∧ keyboardShiftMap 0x1E = ascii 'A' ∧ keyboardMap 0x58 = 0 := by
  decide

end Devices

end NeilOS
