import NeilOS.Foundation.Sweep
import NeilOS.Foundation.Word

/-!
# The VGA terminal

The static variables of `vga.c` and the text memory at `0xB8000` are one record. The constants of
the source are `VGA_WIDTH` 80, `VGA_HEIGHT` 25 and `TERMINAL_LINES` 1000. An access outside of an
array is undefined and gives `none`, and so does a conversion whose argument is missing or has
another type. `irq_save` and `irq_restore` only make a write atomic with respect to the interrupt
handlers.

The counters are natural numbers: the bounds proved below keep every sum under 1100, far from the
end of a `size_t`. A string is the list of its bytes; the end of the list and an earlier zero byte
both terminate it.
-/

namespace NeilOS

open Foundation

abbrev Cell := BitVec 16

structure Terminal where
  terminalBuffer : ℕ → ℕ → Cell
  /-- `VGA_MEMORY`, the cell of row `y` and column `x` at `y * 80 + x`. -/
  vgaMemory : ℕ → Cell
  cursorX : ℕ
  cursorY : ℕ
  viewportY : ℕ
  renderPending : Bool
  vgaColor : Byte

namespace Terminal

/-- `VGA_COLOR`. -/
def color (fg bg : Byte) : Byte := fg ||| bg <<< 4

/-- `VGA_ENTRY`, with the colour already combined. -/
def entry (c color : Byte) : Cell := c.setWidth 16 ||| color.setWidth 16 <<< 8

/-- `VGA_CLEAR`: a space, black on black. -/
def clearEntry : Cell := entry 0x20 (color 0 0)

/-- The static variables at boot; nothing is known about the text memory. -/
def booted (vgaMemory : ℕ → Cell) : Terminal where
  terminalBuffer := fun _ _ ↦ 0
  vgaMemory := vgaMemory
  cursorX := 0
  cursorY := 0
  viewportY := 0
  renderPending := false
  vgaColor := color 0xF 0x0

def load (row column : ℕ) (terminal : Terminal) : Option Cell :=
  if row < 1000 ∧ column < 80 then some (terminal.terminalBuffer row column) else none

def store (row column : ℕ) (cell : Cell) (terminal : Terminal) : Option Terminal :=
  if row < 1000 ∧ column < 80 then
    some { terminal with terminalBuffer := setCell terminal.terminalBuffer row column cell }
  else none

def storeVga (index : ℕ) (cell : Cell) (terminal : Terminal) : Option Terminal :=
  if index < 25 * 80 then
    some { terminal with vgaMemory := Function.update terminal.vgaMemory index cell }
  else none

/-! ## Rendering -/

def vgaRender : Terminal → Option Terminal :=
  sweep 25 80 fun screenY x terminal ↦ do
    let bufferY := terminal.viewportY + screenY
    let cell ← if bufferY < 1000 then terminal.load bufferY x else some clearEntry
    terminal.storeVga (screenY * 80 + x) cell

def vgaFollowCursor (terminal : Terminal) : Terminal :=
  if terminal.viewportY + 25 ≤ terminal.cursorY then
    { terminal with viewportY := terminal.cursorY - 25 + 1, renderPending := true }
  else terminal

def vgaWriteCell (bufferY x : ℕ) (cell : Cell) (terminal : Terminal) : Option Terminal :=
  if terminal.renderPending = false ∧ terminal.viewportY ≤ bufferY ∧
      bufferY < terminal.viewportY + 25 then
    terminal.storeVga ((bufferY - terminal.viewportY) * 80 + x) cell
  else some terminal

def vgaFlush (terminal : Terminal) : Option Terminal :=
  if terminal.renderPending then do
    let terminal ← terminal.vgaRender
    some { terminal with renderPending := false }
  else some terminal

/-! ## Characters -/

/-- The line feed at the end of a row. -/
def wrap (terminal : Terminal) : Terminal :=
  if 80 ≤ terminal.cursorX then
    { terminal with cursorX := 0, cursorY := terminal.cursorY + 1 }
  else terminal

/-- The assignment to `terminalBuffer[cursorY][cursorX]` and the cell write that follows it. -/
def putCell (cell : Cell) (terminal : Terminal) : Option Terminal := do
  let terminal ← terminal.store terminal.cursorY terminal.cursorX cell
  terminal.vgaWriteCell terminal.cursorY terminal.cursorX cell

/-- The `switch` of `vga_putchar_raw`: tab, newline, carriage return, backspace, any other. -/
def interpret (c : Byte) (terminal : Terminal) : Option Terminal :=
  if c = 0x09 then
    some { terminal with cursorX := (terminal.cursorX + 4) &&& 0xFFFFFFFC }.wrap
  else if c = 0x0A then
    some { terminal with cursorX := 0, cursorY := terminal.cursorY + 1 }
  else if c = 0x0D then
    some { terminal with cursorX := 0 }
  else if c = 0x08 then
    if 0 < terminal.cursorX then
      { terminal with cursorX := terminal.cursorX - 1 }.putCell clearEntry
    else some terminal
  else do
    let terminal ← terminal.putCell (entry c terminal.vgaColor)
    some { terminal with cursorX := terminal.cursorX + 1 }.wrap

/-- The loops that move every line up by one and clear the last line. -/
def shiftLines (terminal : Terminal) : Option Terminal := do
  let terminal ← sweep 999 80 (fun y x terminal ↦ do
    let cell ← terminal.load (y + 1) x
    terminal.store y x cell) terminal
  let terminal ← countUp 80 (fun x terminal ↦ terminal.store 999 x clearEntry) terminal
  some { terminal with cursorY := 999, renderPending := true }

def vgaPutcharRaw (c : Byte) (terminal : Terminal) : Option Terminal := do
  let terminal ← terminal.interpret c
  let terminal ← if 1000 ≤ terminal.cursorY then terminal.shiftLines else some terminal
  some terminal.vgaFollowCursor

/-! ## Numbers -/

/-- The byte of an ASCII character. -/
def ascii (c : Char) : Byte := BitVec.ofNat 8 c.toNat

/-- The string `digits` of `vga_print_unsigned`. -/
def digits : List Byte :=
  ['0', '1', '2', '3', '4', '5', '6', '7', '8', '9', 'a', 'b', 'c', 'd', 'e', 'f'].map ascii

/-- The first loop of `vga_print_unsigned`. `room` is what is left of `buffer[16]`, which the list
holds last digit first. -/
def collectDigits (base : Word) : ℕ → Word → List Byte → Option (List Byte)
  | 0, value, buffer => if value = 0 then some buffer else none
  | room + 1, value, buffer =>
    if value = 0 then some buffer
    else do
      let digit ← digits[(value % base).toNat]?
      collectDigits base room (value / base) (digit :: buffer)

/-- The second loop of `vga_print_unsigned`, which counts the characters it writes. -/
def printDigits : List Byte → ℕ → Terminal → Option (ℕ × Terminal)
  | [], cnt, terminal => some (cnt, terminal)
  | digit :: buffer, cnt, terminal => do
    let terminal ← terminal.vgaPutcharRaw digit
    printDigits buffer (cnt + 1) terminal

def vgaPrintUnsigned (value base : Word) (terminal : Terminal) : Option (ℕ × Terminal) :=
  if value = 0 then do
    let terminal ← terminal.vgaPutcharRaw (ascii '0')
    some (1, terminal)
  else do
    let buffer ← collectDigits base 16 value []
    printDigits buffer 0 terminal

def vgaPrintSigned (value : Word) (terminal : Terminal) : Option (ℕ × Terminal) :=
  if value.toInt < 0 then do
    let terminal ← terminal.vgaPutcharRaw (ascii '-')
    let (cnt, terminal) ← terminal.vgaPrintUnsigned (-(value + 1) + 1) 10
    some (1 + cnt, terminal)
  else terminal.vgaPrintUnsigned value 10

/-! ## The interface -/

def vgaSetColor (fg bg : Byte) (terminal : Terminal) : Terminal :=
  { terminal with vgaColor := color fg bg }

def vgaSetForeground (fg : Byte) (terminal : Terminal) : Terminal :=
  { terminal with vgaColor := color fg (terminal.vgaColor >>> 4) }

def vgaSetBackground (bg : Byte) (terminal : Terminal) : Terminal :=
  { terminal with vgaColor := color (terminal.vgaColor &&& 0x0F) bg }

def vgaClear (terminal : Terminal) : Option Terminal := do
  let terminal ← sweep 1000 80 (fun y x terminal ↦ terminal.store y x clearEntry) terminal
  let terminal := { terminal with cursorX := 0, cursorY := 0, viewportY := 0 }
  sweep 25 80 (fun y x terminal ↦ terminal.storeVga (y * 80 + x) clearEntry) terminal

def vgaPutchar (c : Byte) (terminal : Terminal) : Option Terminal := do
  let terminal ← terminal.vgaPutcharRaw c
  terminal.vgaFlush

/-- The loop of `vga_write`, and the one of `%s`, up to the terminating zero; it counts the
characters. -/
def putString : List Byte → ℕ → Terminal → Option (ℕ × Terminal)
  | [], cnt, terminal => some (cnt, terminal)
  | c :: str, cnt, terminal =>
    if c = 0 then some (cnt, terminal)
    else do
      let terminal ← terminal.vgaPutcharRaw c
      putString str (cnt + 1) terminal

def vgaWrite (str : List Byte) (terminal : Terminal) : Option Terminal := do
  let (_, terminal) ← putString str 0 terminal
  terminal.vgaFlush

def vgaScrollUp (terminal : Terminal) : Option Terminal :=
  if 0 < terminal.viewportY then
    { terminal with viewportY := terminal.viewportY - 1 }.vgaRender
  else some terminal

/-- The local variable `maxViewport` of the scroll functions. -/
def maxViewport (terminal : Terminal) : ℕ :=
  if 25 ≤ terminal.cursorY then terminal.cursorY - 25 + 1 else 0

def vgaScrollDown (terminal : Terminal) : Option Terminal :=
  if terminal.viewportY < terminal.maxViewport then
    { terminal with viewportY := terminal.viewportY + 1 }.vgaRender
  else some terminal

def vgaPageUp (terminal : Terminal) : Option Terminal :=
  { terminal with
    viewportY := if 25 ≤ terminal.viewportY then terminal.viewportY - 25 else 0 }.vgaRender

def vgaPageDown (terminal : Terminal) : Option Terminal :=
  let viewportY := terminal.viewportY + 25
  { terminal with
    viewportY := if terminal.maxViewport < viewportY then terminal.maxViewport
      else viewportY }.vgaRender

def vgaInit (terminal : Terminal) : Option Terminal := terminal.vgaClear

/-! ## Formatted output -/

/-- A variadic argument: an `int` or `unsigned int`, or a pointer to a string. -/
inductive Argument where
  | number (value : Word)
  | string (str : Option (List Byte))

/-- `va_arg(args, int)` and `va_arg(args, unsigned int)`. -/
def vaArgNumber : List Argument → Option (Word × List Argument)
  | .number value :: args => some (value, args)
  | _ => none

/-- `va_arg(args, const char*)`. -/
def vaArgString : List Argument → Option (Option (List Byte) × List Argument)
  | .string str :: args => some (str, args)
  | _ => none

/-- The text `(null)`. -/
def nullText : List Byte := ['(', 'n', 'u', 'l', 'l', ')'].map ascii

/-- The `switch` of `vvga_write` for a character that does not end the format: how many characters
it wrote and the arguments it left. -/
def convert (c : Byte) (args : List Argument) (terminal : Terminal) :
    Option (ℕ × List Argument × Terminal) :=
  if c = ascii '%' then do
    let terminal ← terminal.vgaPutcharRaw (ascii '%')
    some (1, args, terminal)
  else if c = ascii 'c' then do
    let (value, args) ← vaArgNumber args
    let terminal ← terminal.vgaPutcharRaw (value.setWidth 8)
    some (1, args, terminal)
  else if c = ascii 's' then do
    let (str, args) ← vaArgString args
    let (cnt, terminal) ← putString (str.getD nullText) 0 terminal
    some (cnt, args, terminal)
  else if c = ascii 'd' ∨ c = ascii 'i' then do
    let (value, args) ← vaArgNumber args
    let (cnt, terminal) ← terminal.vgaPrintSigned value
    some (cnt, args, terminal)
  else if c = ascii 'u' then do
    let (value, args) ← vaArgNumber args
    let (cnt, terminal) ← terminal.vgaPrintUnsigned value 10
    some (cnt, args, terminal)
  else if c = ascii 'x' then do
    let terminal ← terminal.vgaPutcharRaw (ascii '0')
    let terminal ← terminal.vgaPutcharRaw (ascii 'x')
    let (value, args) ← vaArgNumber args
    let (cnt, terminal) ← terminal.vgaPrintUnsigned value 16
    some (2 + cnt, args, terminal)
  else do
    let terminal ← terminal.vgaPutcharRaw (ascii '%')
    let terminal ← terminal.vgaPutcharRaw c
    some (2, args, terminal)

/-- The loop of `vvga_write` with its counter `cnt`. -/
def vvgaWriteFrom : List Byte → List Argument → ℕ → Terminal → Option (ℕ × Terminal)
  | [], _, cnt, terminal => some (cnt, terminal)
  | [c], _, cnt, terminal =>
    if c = 0 ∨ c = ascii '%' then some (cnt, terminal)
    else do
      let terminal ← terminal.vgaPutcharRaw c
      some (cnt + 1, terminal)
  | c :: d :: fmt, args, cnt, terminal =>
    if c = 0 then some (cnt, terminal)
    else if c ≠ ascii '%' then do
      let terminal ← terminal.vgaPutcharRaw c
      vvgaWriteFrom (d :: fmt) args (cnt + 1) terminal
    else if d = 0 then some (cnt, terminal)
    else do
      let (sent, args, terminal) ← terminal.convert d args
      vvgaWriteFrom fmt args (cnt + sent) terminal

def vvgaWrite (fmt : List Byte) (args : List Argument) (terminal : Terminal) :
    Option (ℕ × Terminal) :=
  vvgaWriteFrom fmt args 0 terminal

def fvgaWrite (fmt : List Byte) (args : List Argument) (terminal : Terminal) :
    Option (ℕ × Terminal) := do
  let (cnt, terminal) ← terminal.vvgaWrite fmt args
  let terminal ← terminal.vgaFlush
  some (cnt, terminal)

end Terminal

end NeilOS
