import NeilOS.Vga.Screen

/-!
# Indices stay inside the buffer

The control characters, the wrap at column 80, the move at 1000 lines and the four scroll calls
share three counters. After every character the cursor is in the buffer, the viewport is not below
the line that has the cursor at its bottom, and the row of the cursor is on the screen. A render
reads no row behind the buffer: each call does the same with a `vga_render` that is undefined there.
-/

namespace NeilOS

open Foundation Terminal

namespace Terminal

/-- The bounds of the three counters. The subtraction stops at zero. -/
structure Inside (terminal : Terminal) : Prop where
  column_lt : terminal.cursorX < 80
  row_lt : terminal.cursorY < 1000
  viewport_le : terminal.viewportY ≤ terminal.cursorY - 24

def CursorVisible (terminal : Terminal) : Prop :=
  terminal.viewportY ≤ terminal.cursorY ∧ terminal.cursorY < terminal.viewportY + 25

/-- `vga_render` without its branch for rows behind the buffer, which are undefined here. -/
def vgaRenderInside : Terminal → Option Terminal :=
  sweep 25 80 fun screenY x terminal ↦ do
    let cell ← terminal.load (terminal.viewportY + screenY) x
    terminal.storeVga (screenY * 80 + x) cell

/-- `vga_flush` with another render. -/
def vgaFlushWith (render : Terminal → Option Terminal) (terminal : Terminal) : Option Terminal :=
  if terminal.renderPending then do
    let terminal ← render terminal
    some { terminal with renderPending := false }
  else some terminal

end Terminal

namespace VgaCall

/-- The calls with another render in place of `vga_render`. -/
def performWith (render : Terminal → Option Terminal) : VgaCall → Terminal → Option Terminal
  | .putchar c, terminal => (terminal.vgaPutcharRaw c).bind (vgaFlushWith render)
  | .write str, terminal =>
    (terminal.putString str 0).bind fun result ↦ vgaFlushWith render result.2
  | .fwrite fmt args, terminal =>
    (terminal.vvgaWrite fmt args).bind fun result ↦ vgaFlushWith render result.2
  | .scrollUp, terminal =>
    if 0 < terminal.viewportY then render { terminal with viewportY := terminal.viewportY - 1 }
    else some terminal
  | .scrollDown, terminal =>
    if terminal.viewportY < terminal.maxViewport then
      render { terminal with viewportY := terminal.viewportY + 1 }
    else some terminal
  | .pageUp, terminal =>
    render { terminal with
      viewportY := if 25 ≤ terminal.viewportY then terminal.viewportY - 25 else 0 }
  | .pageDown, terminal =>
    render { terminal with
      viewportY := if terminal.maxViewport < terminal.viewportY + 25 then terminal.maxViewport
        else terminal.viewportY + 25 }
  | call, terminal => call.perform terminal

/-- The characters a call sends to `vga_putchar_raw`, if it is a write with its arguments. -/
def sent : VgaCall → Option (List Byte)
  | .putchar c => some [c]
  | .write str => some (stringText str)
  | .fwrite fmt args => expansion fmt args
  | _ => none

/-- The calls that only move the viewport. -/
def Scrolls : VgaCall → Prop
  | .scrollUp | .scrollDown | .pageUp | .pageDown => True
  | _ => False

/-- A write is its characters and one flush. -/
theorem perform_of_sent {call : VgaCall} {text : List Byte} (hsent : call.sent = some text)
    (terminal : Terminal) : call.perform terminal = (terminal.putAll text).bind vgaFlush := by
  cases call with
  | putchar c =>
    obtain rfl : [c] = text := Option.some.inj hsent
    exact vgaPutchar_eq c terminal
  | write str =>
    obtain rfl : stringText str = text := Option.some.inj hsent
    exact vgaWrite_eq str terminal
  | fwrite fmt args =>
    have hexpansion : expansion fmt args = some text := hsent
    simp only [perform, fvgaWrite_eq, hexpansion, Option.bind_some, Option.bind_assoc,
      Option.bind_fun_some]
  | _ => exact absurd hsent (Option.some_ne_none text).symm

theorem act_of_scrolls {call : VgaCall} (h : call.Scrolls) (put : Byte → Reference → Reference)
    (erase : Reference → Reference) (reference : Reference) :
    call.act put erase reference = some reference := by
  cases call <;> first | rfl | exact h.elim

end VgaCall

namespace Terminal

/-! ## Characters -/

theorem Settled.inside {terminal : Terminal} (h : terminal.Settled) : terminal.Inside :=
  ⟨h.column_lt, h.row_lt, h.viewport_le⟩

theorem vgaFollowCursor_visible (terminal : Terminal) :
    terminal.vgaFollowCursor.cursorY < terminal.vgaFollowCursor.viewportY + 25 := by
  unfold vgaFollowCursor
  split_ifs with hbelow
  · change terminal.cursorY < terminal.cursorY - 25 + 1 + 25
    omega
  · exact Nat.lt_of_not_le hbelow

/-- A character ends by following the cursor. -/
theorem lt_of_vgaPutcharRaw {terminal after : Terminal} {c : Byte}
    (h : terminal.vgaPutcharRaw c = some after) : after.cursorY < after.viewportY + 25 := by
  obtain ⟨middle, -, hmoved⟩ := Option.bind_eq_some_iff.mp h
  obtain ⟨moved, rfl⟩ : ∃ moved : Terminal, moved.vgaFollowCursor = after := by
    split_ifs at hmoved with hend
    · obtain ⟨shifted, -, hfollow⟩ := Option.bind_eq_some_iff.mp hmoved
      exact ⟨shifted, Option.some.inj hfollow⟩
    · exact ⟨middle, Option.some.inj hmoved⟩
  exact moved.vgaFollowCursor_visible

theorem lt_of_putAll {terminal after : Terminal} {text : List Byte}
    (h : terminal.putAll text = some after) (hne : text ≠ []) :
    after.cursorY < after.viewportY + 25 := by
  -- Only the last character matters.
  obtain ⟨written, c, rfl⟩ := (List.eq_nil_or_concat' text).resolve_left hne
  rw [putAll_append, Option.bind_eq_some_iff] at h
  obtain ⟨_, -, hlast⟩ := h
  rw [putAll_singleton] at hlast
  exact lt_of_vgaPutcharRaw hlast

theorem Settled.cursorVisible {terminal : Terminal} (h : terminal.Settled)
    (hbelow : terminal.cursorY < terminal.viewportY + 25) : terminal.CursorVisible :=
  ⟨h.viewport_le.trans (Nat.sub_le _ _), hbelow⟩

theorem vgaFlush_viewport {terminal after : Terminal} (h : terminal.vgaFlush = some after) :
    after.viewportY = terminal.viewportY ∧ after.cursorY = terminal.cursorY := by
  unfold vgaFlush at h
  rw [vgaRender_eq] at h
  split_ifs at h with hpending
  · obtain rfl := Option.some.inj h
    exact ⟨rfl, rfl⟩
  · obtain rfl := Option.some.inj h
    exact ⟨rfl, rfl⟩

/-- After every part of a text the counters are in their bounds and, once there is a character, the
row of the cursor is on the screen. -/
theorem Settled.inside_putAll {terminal : Terminal} (h : terminal.Settled) (written : List Byte) :
    ∃ middle, terminal.putAll written = some middle ∧ middle.Inside ∧
      (written ≠ [] → middle.CursorVisible) := by
  obtain ⟨middle, hput, hsettled, -⟩ := h.putAll written
  exact ⟨middle, hput, hsettled.inside, fun hne ↦ hsettled.cursorVisible (lt_of_putAll hput hne)⟩

theorem Ready.visible_of_sent {terminal after : Terminal} (h : terminal.Ready) {call : VgaCall}
    {text : List Byte} (hsent : call.sent = some text) (hne : text ≠ [])
    (hstep : Step terminal call after) : after.CursorVisible := by
  rw [Step, VgaCall.perform_of_sent hsent] at hstep
  obtain ⟨middle, hput, -, hvisible⟩ := h.inside_putAll text
  rw [hput, Option.bind_some] at hstep
  obtain ⟨hviewport, hrow⟩ := vgaFlush_viewport hstep
  unfold CursorVisible
  rw [hviewport, hrow]
  exact hvisible hne

/-! ## Renders -/

theorem vgaRenderInside_eq {terminal : Terminal} (h : terminal.viewportY + 25 ≤ 1000) :
    terminal.vgaRenderInside = terminal.vgaRender := by
  rw [vgaRender_eq]
  refine sweep_screen terminal.view fun memory y hy x hx ↦ ?_
  have hrow : terminal.viewportY + y < 1000 := by omega
  have hindex : y * 80 + x < 25 * 80 := by omega
  rw [view, show (y * 80 + x) / 80 = y by omega, show (y * 80 + x) % 80 = x by omega, if_pos hrow]
  simp only [load, storeVga, if_pos (And.intro hrow hx), if_pos hindex, Option.bind_eq_bind,
    Option.bind_some]

theorem vgaFlushWith_inside {terminal : Terminal} (h : terminal.viewportY + 25 ≤ 1000) :
    terminal.vgaFlushWith vgaRenderInside = terminal.vgaFlush := by
  unfold vgaFlushWith vgaFlush
  rw [vgaRenderInside_eq h]

theorem Settled.putAll_flushWith {terminal : Terminal} (h : terminal.Settled) (text : List Byte) :
    (terminal.putAll text).bind (vgaFlushWith vgaRenderInside) =
      (terminal.putAll text).bind Terminal.vgaFlush := by
  obtain ⟨middle, hput, hsettled, -⟩ := h.putAll text
  rw [hput, Option.bind_some, Option.bind_some, vgaFlushWith_inside hsettled.viewport_bound]

theorem Settled.renderInside {terminal : Terminal} (h : terminal.Settled) {viewportY : ℕ}
    (hviewport : viewportY ≤ terminal.cursorY - 24) :
    { terminal with viewportY := viewportY }.vgaRenderInside =
      { terminal with viewportY := viewportY }.vgaRender := by
  have hrow := h.row_lt
  exact vgaRenderInside_eq (show viewportY + 25 ≤ 1000 by omega)

/-- No call renders a row behind the buffer. -/
theorem Ready.performWith_inside {terminal : Terminal} (h : terminal.Ready) (call : VgaCall) :
    call.performWith vgaRenderInside terminal = call.perform terminal := by
  cases call with
  | putchar c =>
    have hflush := h.putAll_flushWith [c]
    rwa [← vgaPutchar_eq, putAll_singleton] at hflush
  | write str =>
    rw [VgaCall.perform, vgaWrite_eq, VgaCall.performWith, putString_eq, printed_bind]
    exact h.putAll_flushWith (stringText str)
  | fwrite fmt args =>
    cases hexpansion : expansion fmt args with
    | none => simp only [VgaCall.performWith, VgaCall.perform, vvgaWrite_eq, fvgaWrite_eq, hexpansion,
        Option.bind_none]
    | some text =>
      have hsent : (VgaCall.fwrite fmt args).sent = some text := hexpansion
      rw [VgaCall.perform_of_sent hsent, VgaCall.performWith, vvgaWrite_eq, hexpansion,
        Option.bind_some, printed_bind]
      exact h.putAll_flushWith text
  | scrollUp =>
    exact if_congr Iff.rfl (h.renderInside ((Nat.sub_le terminal.viewportY 1).trans h.viewport_le)) rfl
  | scrollDown =>
    by_cases habove : terminal.viewportY < terminal.maxViewport
    · have hrender := h.renderInside ((Nat.succ_le_of_lt habove).trans terminal.maxViewport_le)
      exact (if_pos habove).trans (hrender.trans (if_pos habove).symm)
    · exact (if_neg habove).trans (if_neg habove).symm
  | pageUp => exact h.renderInside h.pageUp_le
  | pageDown => exact h.renderInside terminal.pageDown_le
  | _ => rfl

/-- **Bounds of every run.** Between calls and after each single character of a write, `cursorX`,
`cursorY` and `viewportY` are in their bounds, and after a character the row of the cursor is on the
screen. Each call returns, so none of its indices is outside an array, and renders only rows of the
buffer; the scroll calls change neither the buffer nor the cursor. -/
theorem counters_in_bounds {history : List VgaCall} {terminal : Terminal}
    (hrun : Run Initial Step history terminal) :
    terminal.Inside ∧
      (∀ call text, VgaCall.sent call = some text →
        call.perform terminal = (terminal.putAll text).bind vgaFlush ∧
        ∀ written, written <+: text → ∃ middle, terminal.putAll written = some middle ∧
          middle.Inside ∧ (written ≠ [] → middle.CursorVisible)) ∧
      ∀ call : VgaCall, call.Supplied → ∃ after, Step terminal call after ∧
        call.performWith vgaRenderInside terminal = some after ∧ after.Inside ∧
        (call.Scrolls → after.text = terminal.text) ∧
        ∀ text, call.sent = some text → text ≠ [] → after.CursorVisible := by
  have hready := ready_of_run hrun
  refine ⟨hready.inside, fun call text hsent ↦ ?_, fun call hsupplied ↦ ?_⟩
  · exact ⟨VgaCall.perform_of_sent hsent terminal,
      fun written _ ↦ hready.inside_putAll written⟩
  · rcases hready.perform call with ⟨after, hperform, hafter, hact⟩ | ⟨hmissing, -⟩
    · refine ⟨after, hperform, (hready.performWith_inside call).trans hperform, hafter.inside,
        fun hscrolls ↦ ?_, fun text hsent hne ↦ hready.visible_of_sent hsent hne hperform⟩
      rw [VgaCall.act_of_scrolls hscrolls, Option.some.injEq] at hact
      exact hact.symm
    · exact absurd hsupplied hmissing

/-- A newline after `vga_init` leaves the cursor in the second row of the screen. -/
theorem counters_in_bounds_first_newline :
    ∃ terminal after, Run Initial Step [] terminal ∧ Step terminal (.putchar 0x0A) after ∧
      after.Inside ∧ after.CursorVisible ∧ after.cursorY = 1 := by
  have hinitial : ((booted fun _ ↦ 0).cleared).Initial := ⟨fun _ ↦ 0, vgaClear_eq _⟩
  obtain ⟨-, -, hcalls⟩ := counters_in_bounds (Run.start hinitial)
  obtain ⟨after, hstep, -, hinside, -, hvisible⟩ := hcalls (.putchar 0x0A) trivial
  have hfeed : after = { (booted fun _ ↦ 0).cleared with cursorY := 1 } :=
    (Option.some.inj hstep).symm
  refine ⟨_, after, Run.start hinitial, hstep, hinside, hvisible [0x0A] rfl (by decide), ?_⟩
  rw [hfeed]

end Terminal

end NeilOS
