import NeilOS.Foundation.Run
import NeilOS.Vga.Format
import NeilOS.Vga.Spec

/-!
# The screen after every call

A run starts with `vga_init` and makes any calls of the interface. Between calls no render is
pending, so the screen shows the buffer from the viewport on: writing single cells and flushing a
pending render at the end of a call comes to the same as rendering the whole screen.
-/

namespace NeilOS

open Foundation Terminal

/-- The calls of the interface after `vga_init`. -/
inductive VgaCall where
  | putchar (c : Byte)
  | write (str : List Byte)
  | fwrite (fmt : List Byte) (args : List Argument)
  | scrollUp
  | scrollDown
  | pageUp
  | pageDown
  | setColor (fg bg : Byte)
  | setForeground (fg : Byte)
  | setBackground (bg : Byte)
  | clear

namespace VgaCall

def perform : VgaCall → Terminal → Option Terminal
  | .putchar c, terminal => terminal.vgaPutchar c
  | .write str, terminal => terminal.vgaWrite str
  | .fwrite fmt args, terminal => (terminal.fvgaWrite fmt args).bind fun result ↦ some result.2
  | .scrollUp, terminal => terminal.vgaScrollUp
  | .scrollDown, terminal => terminal.vgaScrollDown
  | .pageUp, terminal => terminal.vgaPageUp
  | .pageDown, terminal => terminal.vgaPageDown
  | .setColor fg bg, terminal => some (terminal.vgaSetColor fg bg)
  | .setForeground fg, terminal => some (terminal.vgaSetForeground fg)
  | .setBackground bg, terminal => some (terminal.vgaSetBackground bg)
  | .clear, terminal => terminal.vgaClear

/-- Every conversion of the call's format has an argument of its type. -/
def Supplied : VgaCall → Prop
  | .fwrite fmt args => (expansion fmt args).isSome
  | _ => True

/-- What a call does to the text, given what a character and a clear do to it. -/
def act (put : Byte → Reference → Reference) (erase : Reference → Reference) :
    VgaCall → Reference → Option Reference
  | .putchar c, reference => some (put c reference)
  | .write str, reference =>
    some ((stringText str).foldl (fun reference c ↦ put c reference) reference)
  | .fwrite fmt args, reference => (expansion fmt args).bind fun text ↦
    some (text.foldl (fun reference c ↦ put c reference) reference)
  | .scrollUp, reference => some reference
  | .scrollDown, reference => some reference
  | .pageUp, reference => some reference
  | .pageDown, reference => some reference
  | .setColor fg bg, reference => some { reference with vgaColor := color fg bg }
  | .setForeground fg, reference =>
    some { reference with vgaColor := color fg (reference.vgaColor >>> 4) }
  | .setBackground bg, reference =>
    some { reference with vgaColor := color (reference.vgaColor &&& 0x0F) bg }
  | .clear, reference => some (erase reference)

end VgaCall

namespace Terminal

/-- `vga_init` on the static variables as they are at boot. -/
def Initial (terminal : Terminal) : Prop := ∃ vgaMemory, (booted vgaMemory).vgaInit = some terminal

def Step (before : Terminal) (call : VgaCall) (after : Terminal) : Prop :=
  call.perform before = some after

/-! ## One call -/

/-- What holds between two calls. -/
structure Ready (terminal : Terminal) : Prop extends Settled terminal where
  idle : terminal.renderPending = false

/-- A character in a buffer of 1000 lines. -/
def put (c : Byte) (reference : Reference) : Reference := (reference.putchar c).scrolled

/-- A cleared buffer of 1000 lines. -/
def erase (reference : Reference) : Reference :=
  { reference with
    lines := fun y x ↦ if y < 1000 ∧ x < 80 then clearEntry else reference.lines y x
    cursorX := 0
    line := 0 }

theorem Settled.putAll {terminal : Terminal} (h : terminal.Settled) (text : List Byte) :
    ∃ after, terminal.putAll text = some after ∧ after.Settled ∧
      after.text = text.foldl (fun reference c ↦ put c reference) terminal.text := by
  induction text generalizing terminal with
  | nil => exact ⟨terminal, rfl, h, rfl⟩
  | cons c text ih =>
    obtain ⟨middle, hput, hmiddle, htext⟩ := h.vgaPutcharRaw c
    obtain ⟨after, hrest, hafter, hfold⟩ := ih hmiddle
    refine ⟨after, ?_, hafter, ?_⟩
    · rw [putAll_cons, hput, Option.bind_some, hrest]
    · rw [hfold, htext]
      rfl

theorem Settled.putAll_flush {terminal : Terminal} (h : terminal.Settled) (text : List Byte) :
    ∃ after, (terminal.putAll text).bind Terminal.vgaFlush = some after ∧ after.Ready ∧
      after.text = text.foldl (fun reference c ↦ put c reference) terminal.text := by
  obtain ⟨middle, hput, hmiddle, hfold⟩ := h.putAll text
  obtain ⟨after, hflush, hafter, htext, hidle⟩ := hmiddle.vgaFlush
  refine ⟨after, ?_, ⟨hafter, hidle⟩, htext.trans hfold⟩
  rw [hput, Option.bind_some, hflush]

theorem Ready.moveViewport {terminal : Terminal} (h : terminal.Ready) {viewportY : ℕ}
    (hviewport : viewportY ≤ terminal.cursorY - 24) :
    ∃ after, { terminal with viewportY := viewportY }.vgaRender = some after ∧ after.Ready ∧
      after.text = terminal.text := by
  obtain ⟨after, hrender, hafter, htext, hpending⟩ := h.toSettled.moveViewport hviewport
  exact ⟨after, hrender, ⟨hafter, hpending.trans h.idle⟩, htext⟩

theorem Ready.setColor {terminal : Terminal} (h : terminal.Ready) (vgaColor : Byte) :
    { terminal with vgaColor := vgaColor }.Ready :=
  ⟨⟨h.column_lt, h.row_lt, h.viewport_le, h.shows⟩, h.idle⟩

theorem maxViewport_le (terminal : Terminal) : terminal.maxViewport ≤ terminal.cursorY - 24 := by
  unfold maxViewport
  split_ifs <;> omega

theorem Settled.pageUp_le {terminal : Terminal} (h : terminal.Settled) :
    (if 25 ≤ terminal.viewportY then terminal.viewportY - 25 else 0) ≤ terminal.cursorY - 24 := by
  have hviewport := h.viewport_le
  split_ifs <;> omega

theorem pageDown_le (terminal : Terminal) :
    (if terminal.maxViewport < terminal.viewportY + 25 then terminal.maxViewport
      else terminal.viewportY + 25) ≤ terminal.cursorY - 24 := by
  have hmax := terminal.maxViewport_le
  split_ifs <;> omega

theorem ready_cleared {terminal : Terminal} (hidle : terminal.renderPending = false) :
    terminal.cleared.Ready := by
  refine ⟨⟨Nat.zero_lt_succ 79, Nat.zero_lt_succ 999, Nat.zero_le _, fun _ y hy x hx ↦ ?_⟩, hidle⟩
  change (if y * 80 + x < 25 * 80 then clearEntry else _) =
    if 0 + y < 1000 ∧ x < 80 then clearEntry else _
  rw [if_pos (by omega), if_pos (by omega)]

/-- A call returns, settles the screen and changes the text as described, unless its format lacks an
argument. -/
theorem Ready.perform {terminal : Terminal} (h : terminal.Ready) (call : VgaCall) :
    (∃ after, call.perform terminal = some after ∧ after.Ready ∧
      call.act put erase terminal.text = some after.text) ∨
    (¬ call.Supplied ∧ call.perform terminal = none ∧
      call.act put erase terminal.text = none) := by
  cases call with
  | putchar c =>
    obtain ⟨after, hput, hafter, htext⟩ := h.putAll_flush [c]
    exact .inl ⟨after, (vgaPutchar_eq c terminal).trans hput, hafter, congrArg some htext.symm⟩
  | write str =>
    obtain ⟨after, hput, hafter, htext⟩ := h.putAll_flush (stringText str)
    exact .inl ⟨after, (vgaWrite_eq str terminal).trans hput, hafter, congrArg some htext.symm⟩
  | fwrite fmt args =>
    simp only [VgaCall.perform, VgaCall.act, VgaCall.Supplied, fvgaWrite_eq]
    cases expansion fmt args with
    | none => exact .inr ⟨Bool.false_ne_true, rfl, rfl⟩
    | some text =>
      obtain ⟨after, hput, hafter, htext⟩ := h.putAll_flush text
      refine .inl ⟨after, ?_, hafter, congrArg some htext.symm⟩
      simp only [Option.bind_some, hput]
  | scrollUp =>
    by_cases hbelow : 0 < terminal.viewportY
    · obtain ⟨after, hrender, hafter, htext⟩ :=
        h.moveViewport ((Nat.sub_le terminal.viewportY 1).trans h.viewport_le)
      exact .inl ⟨after, (if_pos hbelow).trans hrender, hafter, congrArg some htext.symm⟩
    · exact .inl ⟨terminal, if_neg hbelow, h, rfl⟩
  | scrollDown =>
    by_cases habove : terminal.viewportY < terminal.maxViewport
    · obtain ⟨after, hrender, hafter, htext⟩ :=
        h.moveViewport ((Nat.succ_le_of_lt habove).trans terminal.maxViewport_le)
      exact .inl ⟨after, (if_pos habove).trans hrender, hafter, congrArg some htext.symm⟩
    · exact .inl ⟨terminal, if_neg habove, h, rfl⟩
  | pageUp =>
    obtain ⟨after, hrender, hafter, htext⟩ := h.moveViewport h.pageUp_le
    exact .inl ⟨after, hrender, hafter, congrArg some htext.symm⟩
  | pageDown =>
    obtain ⟨after, hrender, hafter, htext⟩ := h.moveViewport terminal.pageDown_le
    exact .inl ⟨after, hrender, hafter, congrArg some htext.symm⟩
  | setColor fg bg => exact .inl ⟨_, rfl, h.setColor _, rfl⟩
  | setForeground fg => exact .inl ⟨_, rfl, h.setColor _, rfl⟩
  | setBackground bg => exact .inl ⟨_, rfl, h.setColor _, rfl⟩
  | clear => exact .inl ⟨terminal.cleared, vgaClear_eq terminal, ready_cleared h.idle, rfl⟩

/-! ## Every run -/

theorem Initial.ready {terminal : Terminal} (h : terminal.Initial) : terminal.Ready := by
  obtain ⟨vgaMemory, hinit⟩ := h
  rw [vgaInit, vgaClear_eq, Option.some.injEq] at hinit
  rw [← hinit]
  exact ready_cleared rfl

theorem Ready.step {before after : Terminal} {call : VgaCall} (h : before.Ready)
    (hstep : Step before call after) : after.Ready := by
  unfold Step at hstep
  rcases h.perform call with ⟨final, hperform, hready, -⟩ | ⟨-, hnone, -⟩
  · rw [hperform, Option.some.injEq] at hstep
    exact hstep ▸ hready
  · rw [hnone] at hstep
    exact absurd hstep nofun

theorem ready_of_run {history : List VgaCall} {terminal : Terminal}
    (hrun : Run Initial Step history terminal) : terminal.Ready :=
  hrun.invariant Ready (fun _ hinitial ↦ hinitial.ready) fun _ _ _ hready hstep ↦ hready.step hstep

/-- A screen that shows the buffer is what a full render draws. -/
theorem Ready.vgaRender {terminal : Terminal} (h : terminal.Ready) :
    terminal.vgaRender = some terminal := by
  have hscreen (index : ℕ) (hindex : index < 25 * 80) :
      terminal.vgaMemory index = terminal.view index := by
    have hbound := h.viewport_bound
    have hcell := h.shows h.idle (index / 80) (by omega) (index % 80) (by omega)
    rw [Nat.div_add_mod'] at hcell
    rw [hcell, view, if_pos (by omega)]
  rw [vgaRender_eq, withScreen, Option.some.injEq]
  congr 1
  funext index
  split_ifs with hindex
  · exact (hscreen index hindex).symm
  · rfl

/-- **Screen coherence.** After every call no render is pending, every cell of the screen is the cell
of the buffer below the viewport, which lies in the buffer, and a full render would change nothing.
Each next call returns, provided its format has its arguments. -/
theorem screen_shows_buffer {history : List VgaCall} {terminal : Terminal}
    (hrun : Run Initial Step history terminal) :
    terminal.renderPending = false ∧ terminal.viewportY + 25 ≤ 1000 ∧
      (∀ y < 25, ∀ x < 80,
        terminal.vgaMemory (y * 80 + x) = terminal.terminalBuffer (terminal.viewportY + y) x) ∧
      terminal.vgaRender = some terminal ∧
      ∀ call : VgaCall, call.Supplied → ∃ after, Step terminal call after := by
  have hready := ready_of_run hrun
  refine ⟨hready.idle, hready.viewport_bound, hready.shows hready.idle, hready.vgaRender,
    fun call hsupplied ↦ ?_⟩
  rcases hready.perform call with ⟨after, hperform, -⟩ | ⟨hmissing, -⟩
  · exact ⟨after, hperform⟩
  · exact absurd hsupplied hmissing

/-- Writing a character after `vga_init` puts it on the screen, white on black. -/
theorem screen_shows_buffer_first_character :
    ∃ terminal, Run Initial Step [.putchar (ascii 'A')] terminal ∧
      terminal.renderPending = false ∧ terminal.vgaMemory 0 = 0x0F41 := by
  have hinitial : ((booted fun _ ↦ 0).cleared).Initial := ⟨fun _ ↦ 0, vgaClear_eq _⟩
  rcases hinitial.ready.perform (.putchar (ascii 'A')) with
    ⟨after, hperform, hready, htext⟩ | ⟨hmissing, -⟩
  · have hrun : Run Initial Step [.putchar (ascii 'A')] after := (Run.start hinitial).step hperform
    obtain ⟨hidle, -, hshows, -⟩ := screen_shows_buffer hrun
    have hlines : after.text = put (ascii 'A') (booted fun _ ↦ 0).cleared.text := by
      simpa [VgaCall.act] using htext.symm
    have hviewport : after.viewportY = 0 := by
      have hrow : after.cursorY = 0 := congrArg Reference.line hlines
      have hle := hready.viewport_le
      omega
    have hcell : after.terminalBuffer 0 0 = 0x0F41 :=
      congrFun (congrFun (congrArg Reference.lines hlines) 0) 0
    have hscreen := hshows 0 (by decide) 0 (by decide)
    rw [hviewport, hcell] at hscreen
    exact ⟨after, hrun, hidle, hscreen⟩
  · exact absurd trivial hmissing

end Terminal

end NeilOS
