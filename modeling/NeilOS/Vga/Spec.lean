import NeilOS.Vga.Model

/-!
# What one character does

The reference terminal has as many lines as a text needs and never moves one. `vga_putchar_raw` acts
on the terminal's buffer and cursor as the reference terminal does, and then moves the lines up if
the cursor has left the buffer. On the screen it either writes the one cell that changed or leaves a
render pending.
-/

namespace NeilOS

open Foundation Terminal

structure Reference where
  lines : ℕ → ℕ → Cell
  cursorX : ℕ
  line : ℕ
  vgaColor : Byte

namespace Reference

/-- Nothing but blank lines, with the cursor at the top. -/
def blank (vgaColor : Byte) : Reference := ⟨fun _ _ ↦ clearEntry, 0, 0, vgaColor⟩

def lineFeed (reference : Reference) : Reference :=
  { reference with cursorX := 0, line := reference.line + 1 }

/-- Text continues on the next line at column 80. -/
def wrapped (reference : Reference) : Reference :=
  if reference.cursorX < 80 then reference else reference.lineFeed

def write (cell : Cell) (reference : Reference) : Reference :=
  { reference with lines := setCell reference.lines reference.line reference.cursorX cell }

/-- Tab to the next multiple of 4, newline, carriage return, backspace, or a printed character. -/
def putchar (c : Byte) (reference : Reference) : Reference :=
  if c = 0x09 then { reference with cursorX := 4 * (reference.cursorX / 4 + 1) }.wrapped
  else if c = 0x0A then reference.lineFeed
  else if c = 0x0D then { reference with cursorX := 0 }
  else if c = 0x08 then
    if reference.cursorX = 0 then reference
    else { reference with cursorX := reference.cursorX - 1 }.write clearEntry
  else
    { reference.write (entry c reference.vgaColor) with cursorX := reference.cursorX + 1 }.wrapped

/-- The lines moved up by one and the last of 1000 cleared, if the cursor is below them. -/
def scrolled (reference : Reference) : Reference :=
  if 1000 ≤ reference.line then
    { reference with
      lines := fun y x ↦
        if y < 1000 ∧ x < 80 then
          if y < 999 then reference.lines (y + 1) x else clearEntry
        else reference.lines y x
      line := 999 }
  else reference

theorem scrolled_of_lt {reference : Reference} (h : reference.line < 1000) :
    reference.scrolled = reference :=
  if_neg (Nat.not_le.mpr h)

theorem scrolled_of_le {reference : Reference} (h : 1000 ≤ reference.line) :
    reference.scrolled = { reference with lines := reference.scrolled.lines, line := 999 } := by
  unfold scrolled
  rw [if_pos h]

theorem scrolled_lines {reference : Reference} (h : 1000 ≤ reference.line) (y x : ℕ) :
    reference.scrolled.lines y x =
      if y < 1000 ∧ x < 80 then
        if y < 999 then reference.lines (y + 1) x else clearEntry
      else reference.lines y x := by
  unfold scrolled
  rw [if_pos h]

theorem wrapped_cursorX (reference : Reference) : reference.wrapped.cursorX < 80 := by
  unfold wrapped
  split_ifs with h
  · exact h
  · exact Nat.zero_lt_succ 79

/-- A character stays in its line or feeds one line, and it changes no other line. -/
theorem putchar_spec (c : Byte) {reference : Reference} (hcolumn : reference.cursorX < 80) :
    (reference.putchar c).cursorX < 80 ∧ reference.line ≤ (reference.putchar c).line ∧
      (reference.putchar c).line ≤ reference.line + 1 ∧
      (reference.putchar c).vgaColor = reference.vgaColor ∧
      ∀ line, line ≠ reference.line → (reference.putchar c).lines line = reference.lines line := by
  have hwrapped (other : Reference) : other.line ≤ other.wrapped.line ∧
      other.wrapped.line ≤ other.line + 1 ∧ other.wrapped.vgaColor = other.vgaColor ∧
      other.wrapped.lines = other.lines := by
    unfold wrapped lineFeed
    split_ifs <;> simp
  have hwrite (other : Reference) (cell : Cell) (line : ℕ) (hline : line ≠ other.line) :
      (other.write cell).lines line = other.lines line := by
    funext x
    exact if_neg fun h ↦ hline h.1
  unfold putchar
  split_ifs with htab hnewline hreturn hbackspace hzero
  · obtain ⟨hle, hge, hcolor, hlines⟩ :=
      hwrapped { reference with cursorX := 4 * (reference.cursorX / 4 + 1) }
    exact ⟨wrapped_cursorX _, hle, hge, hcolor, fun line _ ↦ congrFun hlines line⟩
  · exact ⟨Nat.zero_lt_succ 79, Nat.le_succ _, le_rfl, rfl, fun _ _ ↦ rfl⟩
  · exact ⟨Nat.zero_lt_succ 79, le_rfl, Nat.le_succ _, rfl, fun _ _ ↦ rfl⟩
  · exact ⟨hcolumn, le_rfl, Nat.le_succ _, rfl, fun _ _ ↦ rfl⟩
  · have hback : reference.cursorX - 1 < 80 := by omega
    exact ⟨hback, le_rfl, Nat.le_succ _, rfl,
      hwrite { reference with cursorX := reference.cursorX - 1 } clearEntry⟩
  · obtain ⟨hle, hge, hcolor, hlines⟩ := hwrapped
      { reference.write (entry c reference.vgaColor) with cursorX := reference.cursorX + 1 }
    refine ⟨wrapped_cursorX _, hle, hge, hcolor, fun line hline ↦ ?_⟩
    rw [hlines]
    exact hwrite reference _ line hline

end Reference

namespace Terminal

/-- The part of the terminal that the reference terminal has. -/
def text (terminal : Terminal) : Reference :=
  ⟨terminal.terminalBuffer, terminal.cursorX, terminal.cursorY, terminal.vgaColor⟩

/-! ## The loops -/

/-- What a full render puts into a cell. -/
def view (terminal : Terminal) (index : ℕ) : Cell :=
  if terminal.viewportY + index / 80 < 1000 then
    terminal.terminalBuffer (terminal.viewportY + index / 80) (index % 80)
  else clearEntry

/-- The terminal with new contents of all 25 × 80 cells on the screen. -/
def withScreen (cells : ℕ → Cell) (terminal : Terminal) : Terminal :=
  { terminal with
    vgaMemory := fun index ↦ if index < 25 * 80 then cells index else terminal.vgaMemory index }

theorem sweep_screen {body : ℕ → ℕ → Terminal → Option Terminal} {terminal : Terminal}
    (cells : ℕ → Cell)
    (hbody : ∀ memory, ∀ y < 25, ∀ x < 80, body y x { terminal with vgaMemory := memory } =
      some { terminal with vgaMemory := Function.update memory (y * 80 + x) (cells (y * 80 + x)) }) :
    sweep 25 80 body terminal = some (terminal.withScreen cells) := by
  have hstep (index : ℕ) : Function.update
      (fun other ↦ if other < index then cells other else terminal.vgaMemory other) index
        (cells index) =
      fun other ↦ if other < index + 1 then cells other else terminal.vgaMemory other := by
    funext other
    rw [Function.update_apply]
    rcases lt_trichotomy other index with hlt | rfl | hgt
    · rw [if_neg hlt.ne, if_pos hlt, if_pos (by omega)]
    · rw [if_pos rfl, if_pos (Nat.lt_succ_self _)]
    · rw [if_neg hgt.ne', if_neg (by omega), if_neg (by omega)]
  refine sweep_eq (fun row column ↦ { terminal with
    vgaMemory := fun index ↦ if index < row * 80 + column then cells index
      else terminal.vgaMemory index }) (fun row _ ↦ ?_) fun row hrow column hcolumn ↦ ?_
  · rw [show row * 80 + 80 = (row + 1) * 80 + 0 by omega]
  · rw [hbody _ row hrow column hcolumn, hstep, Nat.add_assoc]

theorem vgaRender_eq (terminal : Terminal) :
    terminal.vgaRender = some (terminal.withScreen terminal.view) := by
  refine sweep_screen terminal.view fun memory y hy x hx ↦ ?_
  have hrow : (y * 80 + x) / 80 = y := by omega
  have hcolumn : (y * 80 + x) % 80 = x := by omega
  have hindex : y * 80 + x < 25 * 80 := by omega
  unfold view
  rw [hrow, hcolumn]
  by_cases hinside : terminal.viewportY + y < 1000
  · simp only [if_pos hinside, load, storeVga, if_pos (And.intro hinside hx), if_pos hindex,
      Option.bind_eq_bind, Option.bind_some]
  · simp only [if_neg hinside, storeVga, if_pos hindex, Option.bind_eq_bind, Option.bind_some]

/-- The state `vga_clear` leaves. -/
def cleared (terminal : Terminal) : Terminal :=
  { terminal.withScreen fun _ ↦ clearEntry with
    terminalBuffer := fun y x ↦ if y < 1000 ∧ x < 80 then clearEntry else terminal.terminalBuffer y x
    cursorX := 0
    cursorY := 0
    viewportY := 0 }

theorem vgaClear_eq (terminal : Terminal) : terminal.vgaClear = some terminal.cleared := by
  have hbuffer : sweep 1000 80 (fun y x terminal ↦ terminal.store y x clearEntry) terminal =
      some { terminal with
        terminalBuffer := fun y x ↦
          if y < 1000 ∧ x < 80 then clearEntry else terminal.terminalBuffer y x } := by
    refine sweep_overwrite (fun grid ↦ { terminal with terminalBuffer := grid })
      (fun _ _ ↦ clearEntry) terminal.terminalBuffer fun row hrow column hcolumn ↦ ?_
    exact if_pos ⟨hrow, hcolumn⟩
  have hscreen (other : Terminal) :
      sweep 25 80 (fun y x terminal ↦ terminal.storeVga (y * 80 + x) clearEntry) other =
        some (other.withScreen fun _ ↦ clearEntry) :=
    sweep_screen (fun _ ↦ clearEntry) fun memory y hy x hx ↦ if_pos (by omega)
  unfold vgaClear
  rw [hbuffer, Option.bind_eq_bind, Option.bind_some, hscreen]
  rfl

/-- Moving the lines up reads each line before it is overwritten. -/
theorem sweep_moveLines (terminal : Terminal) :
    sweep 999 80 (fun y x terminal ↦ do
        let cell ← load (y + 1) x terminal
        terminal.store y x cell) terminal =
      some { terminal with
        terminalBuffer := fun y x ↦
          if y < 999 ∧ x < 80 then terminal.terminalBuffer (y + 1) x
          else terminal.terminalBuffer y x } := by
  refine sweep_overwrite (fun grid ↦ { terminal with terminalBuffer := grid })
    (fun y x ↦ terminal.terminalBuffer (y + 1) x) terminal.terminalBuffer
    fun row hrow column hcolumn ↦ ?_
  have hunread : overwritten 80 (fun y x ↦ terminal.terminalBuffer (y + 1) x)
      terminal.terminalBuffer row column (row + 1) column =
        terminal.terminalBuffer (row + 1) column :=
    overwritten_of_le (by omega) (by omega)
  have hread : load (row + 1) column { terminal with
      terminalBuffer := overwritten 80 (fun y x ↦ terminal.terminalBuffer (y + 1) x)
        terminal.terminalBuffer row column } =
      some (terminal.terminalBuffer (row + 1) column) := by
    rw [load, if_pos (by omega)]
    exact congrArg some hunread
  rw [Option.bind_eq_bind, hread]
  exact if_pos ⟨by omega, hcolumn⟩

theorem countUp_clearLine (terminal : Terminal) :
    countUp 80 (fun x terminal ↦ store 999 x clearEntry terminal) terminal =
      some { terminal with
        terminalBuffer := fun y x ↦
          if y = 999 ∧ x < 80 then clearEntry else terminal.terminalBuffer y x } := by
  let emptied (count : ℕ) : ℕ → ℕ → Cell := fun y x ↦
    if y = 999 ∧ x < count then clearEntry else terminal.terminalBuffer y x
  have hstart : emptied 0 = terminal.terminalBuffer := by
    funext y x
    exact if_neg (by omega)
  have hempty : countUp 80 (fun x terminal ↦ store 999 x clearEntry terminal)
      { terminal with terminalBuffer := emptied 0 } =
        some { terminal with terminalBuffer := emptied 80 } := by
    refine countUp_eq (fun count ↦ { terminal with terminalBuffer := emptied count })
      fun column hcolumn ↦ ?_
    have hset : setCell (emptied column) 999 column clearEntry = emptied (column + 1) := by
      funext y x
      unfold setCell emptied
      grind
    rw [store, if_pos ⟨by omega, hcolumn⟩, hset]
  rwa [hstart] at hempty

theorem shiftLines_eq {terminal : Terminal} (hcursor : 1000 ≤ terminal.cursorY) :
    ∃ after, terminal.shiftLines = some after ∧ after.text = terminal.text.scrolled ∧
      after.viewportY = terminal.viewportY ∧ after.renderPending = true := by
  have hend : 1000 ≤ terminal.text.line := hcursor
  unfold shiftLines
  rw [sweep_moveLines, Option.bind_eq_bind, Option.bind_some, countUp_clearLine]
  refine ⟨_, rfl, ?_, rfl, rfl⟩
  rw [Reference.scrolled_of_le hend]
  unfold text
  congr 1
  funext y x
  rw [Reference.scrolled_lines hcursor]
  grind

/-! ## The screen -/

/-- Every cell of the screen is the cell of the buffer it stands for. -/
def Drawn (terminal : Terminal) : Prop :=
  ∀ y < 25, ∀ x < 80,
    terminal.vgaMemory (y * 80 + x) = terminal.terminalBuffer (terminal.viewportY + y) x

/-- The screen is right unless a render is pending. -/
def Shows (terminal : Terminal) : Prop := terminal.renderPending = false → terminal.Drawn

/-- The buffer and the cursor become those of `reference`, and the screen keeps up. -/
structure Updates (before : Terminal) (reference : Reference) (after : Terminal) : Prop where
  text_eq : after.text = reference
  viewportY_eq : after.viewportY = before.viewportY
  renderPending_eq : after.renderPending = before.renderPending
  shows : before.Shows → after.Shows

theorem putCell_spec {terminal : Terminal} (cell : Cell) (hcolumn : terminal.cursorX < 80)
    (hrow : terminal.cursorY < 1000) :
    ∃ after, terminal.putCell cell = some after ∧
      Updates terminal (terminal.text.write cell) after := by
  let stored := { terminal with
    terminalBuffer := setCell terminal.terminalBuffer terminal.cursorY terminal.cursorX cell }
  have hstore : terminal.store terminal.cursorY terminal.cursorX cell = some stored :=
    if_pos ⟨hrow, hcolumn⟩
  unfold putCell
  rw [hstore, Option.bind_eq_bind, Option.bind_some]
  unfold vgaWriteCell
  split_ifs with hvisible
  · obtain ⟨_, hbelow, habove⟩ := hvisible
    let index := (terminal.cursorY - terminal.viewportY) * 80 + terminal.cursorX
    have hindex : index < 25 * 80 := by
      change terminal.viewportY ≤ terminal.cursorY at hbelow
      change terminal.cursorY < terminal.viewportY + 25 at habove
      omega
    refine ⟨{ stored with vgaMemory := Function.update terminal.vgaMemory index cell },
      if_pos hindex, rfl, rfl, rfl, fun hshows hpending y hy x hx ↦ ?_⟩
    change Function.update terminal.vgaMemory index cell (y * 80 + x) =
      setCell terminal.terminalBuffer terminal.cursorY terminal.cursorX cell
        (terminal.viewportY + y) x
    change terminal.viewportY ≤ terminal.cursorY at hbelow
    rw [Function.update_apply, setCell, hshows hpending y hy x hx]
    exact if_congr (by omega) rfl rfl
  · refine ⟨stored, rfl, rfl, rfl, rfl, fun hshows hpending y hy x hx ↦ ?_⟩
    -- The cell that changed is off the screen.
    have hoff : terminal.viewportY + y ≠ terminal.cursorY := by
      intro hon
      exact hvisible ⟨hpending, by change terminal.viewportY ≤ terminal.cursorY; omega,
        by change terminal.cursorY < terminal.viewportY + 25; omega⟩
    change terminal.vgaMemory (y * 80 + x) =
      setCell terminal.terminalBuffer terminal.cursorY terminal.cursorX cell
        (terminal.viewportY + y) x
    rw [setCell, if_neg fun h ↦ hoff h.1]
    exact hshows hpending y hy x hx

theorem tabStop_eq : ∀ column < 80, (column + 4) &&& 0xFFFFFFFC = 4 * (column / 4 + 1) := by
  decide +kernel

theorem Updates.wrap {before after : Terminal} {reference : Reference}
    (h : Updates before reference after) : Updates before reference.wrapped after.wrap := by
  obtain ⟨rfl, hviewport, hpending, hshows⟩ := h
  unfold Reference.wrapped Terminal.wrap
  by_cases hedge : after.cursorX < 80
  · rw [if_pos (by exact hedge), if_neg (Nat.not_le.mpr hedge)]
    exact ⟨rfl, hviewport, hpending, hshows⟩
  · rw [if_neg (by exact hedge), if_pos (Nat.le_of_not_lt hedge)]
    exact ⟨rfl, hviewport, hpending, hshows⟩

theorem interpret_spec {terminal : Terminal} (c : Byte) (hcolumn : terminal.cursorX < 80)
    (hrow : terminal.cursorY < 1000) :
    ∃ after, terminal.interpret c = some after ∧
      Updates terminal (terminal.text.putchar c) after := by
  unfold interpret Reference.putchar
  split_ifs with htab hnewline hreturn hbackspace hpositive hzero hzero
  · rw [tabStop_eq terminal.cursorX hcolumn]
    have hmoved : Updates terminal
        { terminal.text with cursorX := 4 * (terminal.cursorX / 4 + 1) }
        { terminal with cursorX := 4 * (terminal.cursorX / 4 + 1) } := ⟨rfl, rfl, rfl, id⟩
    exact ⟨_, rfl, hmoved.wrap⟩
  · exact ⟨_, rfl, rfl, rfl, rfl, id⟩
  · exact ⟨_, rfl, rfl, rfl, rfl, id⟩
  · exact absurd hzero hpositive.ne'
  · let back := { terminal with cursorX := terminal.cursorX - 1 }
    have hback : back.cursorX < 80 := (Nat.sub_le _ _).trans_lt hcolumn
    have hsame : back.cursorY < 1000 := hrow
    obtain ⟨after, hput, hafter⟩ := putCell_spec clearEntry hback hsame
    exact ⟨after, hput, hafter.text_eq, hafter.viewportY_eq, hafter.renderPending_eq, hafter.shows⟩
  · exact ⟨terminal, rfl, rfl, rfl, rfl, id⟩
  · exact absurd (Nat.eq_zero_of_not_pos hpositive) hzero
  · obtain ⟨after, hput, hafter⟩ := putCell_spec (entry c terminal.vgaColor) hcolumn hrow
    have hmoved : Updates terminal
        { terminal.text.write (entry c terminal.vgaColor) with cursorX := terminal.cursorX + 1 }
        { after with cursorX := after.cursorX + 1 } := by
      refine ⟨?_, hafter.viewportY_eq, hafter.renderPending_eq, hafter.shows⟩
      have hcursor : after.cursorX = terminal.cursorX := congrArg Reference.cursorX hafter.text_eq
      rw [← hafter.text_eq, ← hcursor]
      rfl
    rw [hput]
    exact ⟨_, rfl, hmoved.wrap⟩

/-! ## Between characters -/

/-- What holds between two characters: the cursor is in the buffer, and the viewport is not below
the line that has the cursor at its bottom. -/
structure Settled (terminal : Terminal) : Prop where
  column_lt : terminal.cursorX < 80
  row_lt : terminal.cursorY < 1000
  viewport_le : terminal.viewportY ≤ terminal.cursorY - 24
  shows : terminal.Shows

theorem vgaFollowCursor_text (terminal : Terminal) : terminal.vgaFollowCursor.text = terminal.text := by
  unfold vgaFollowCursor
  split_ifs <;> rfl

theorem Settled.followCursor {terminal : Terminal} (h : terminal.Settled) :
    terminal.vgaFollowCursor.Settled := by
  unfold vgaFollowCursor
  split_ifs with hbelow
  · refine ⟨h.column_lt, h.row_lt, ?_, fun hpending ↦ absurd hpending (by simp)⟩
    change terminal.cursorY - 25 + 1 ≤ terminal.cursorY - 24
    omega
  · exact h

theorem Settled.vgaPutcharRaw {terminal : Terminal} (h : terminal.Settled) (c : Byte) :
    ∃ after, terminal.vgaPutcharRaw c = some after ∧ after.Settled ∧
      after.text = (terminal.text.putchar c).scrolled := by
  obtain ⟨middle, hinterpret, hmiddle⟩ := interpret_spec c h.column_lt h.row_lt
  have hstart : terminal.text.cursorX < 80 := h.column_lt
  obtain ⟨hcolumn, hup, -, -, -⟩ := Reference.putchar_spec c hstart
  rw [← hmiddle.text_eq] at hcolumn hup ⊢
  have hviewport : middle.viewportY ≤ middle.cursorY - 24 :=
    calc
      middle.viewportY = terminal.viewportY := hmiddle.viewportY_eq
      _ ≤ terminal.cursorY - 24 := h.viewport_le
      _ ≤ middle.cursorY - 24 := Nat.sub_le_sub_right hup 24
  unfold Terminal.vgaPutcharRaw
  rw [hinterpret]
  by_cases hend : 1000 ≤ middle.cursorY
  · obtain ⟨shifted, hshift, htext, hview, hpending⟩ := shiftLines_eq hend
    have hscrolled := htext.trans (Reference.scrolled_of_le hend)
    have hrow : shifted.cursorY = 999 := congrArg Reference.line hscrolled
    have hsettled : shifted.Settled := by
      refine ⟨?_, by omega, ?_, fun hidle ↦ absurd (hpending.symm.trans hidle) (by decide)⟩
      · exact (congrArg Reference.cursorX hscrolled).trans_lt hcolumn
      · have hlast := h.row_lt
        have hlow := h.viewport_le
        rw [hview, hmiddle.viewportY_eq]
        omega
    refine ⟨shifted.vgaFollowCursor, ?_, hsettled.followCursor, ?_⟩
    · simp only [Option.bind_eq_bind, Option.bind_some, if_pos hend, hshift]
    · rw [vgaFollowCursor_text, htext]
  · have hsettled : middle.Settled := ⟨hcolumn, Nat.lt_of_not_le hend, hviewport, hmiddle.shows h.shows⟩
    refine ⟨middle.vgaFollowCursor, ?_, hsettled.followCursor, ?_⟩
    · simp only [Option.bind_eq_bind, Option.bind_some, if_neg hend]
    · rw [vgaFollowCursor_text, Reference.scrolled_of_lt (Nat.lt_of_not_le hend)]

theorem Settled.viewport_bound {terminal : Terminal} (h : terminal.Settled) :
    terminal.viewportY + 25 ≤ 1000 := by
  have hrow := h.row_lt
  have hviewport := h.viewport_le
  omega

/-- A render inside the buffer is exact. -/
theorem withScreen_drawn {terminal : Terminal} (hviewport : terminal.viewportY + 25 ≤ 1000) :
    (terminal.withScreen terminal.view).Drawn := by
  intro y hy x hx
  change (if y * 80 + x < 25 * 80 then terminal.view (y * 80 + x) else _) = _
  rw [if_pos (by omega), view, show (y * 80 + x) / 80 = y by omega,
    show (y * 80 + x) % 80 = x by omega, if_pos (by omega)]
  rfl

theorem Settled.vgaFlush {terminal : Terminal} (h : terminal.Settled) :
    ∃ after, terminal.vgaFlush = some after ∧ after.Settled ∧ after.text = terminal.text ∧
      after.renderPending = false := by
  unfold Terminal.vgaFlush
  split_ifs with hpending
  · rw [vgaRender_eq]
    refine ⟨{ terminal.withScreen terminal.view with renderPending := false }, rfl, ?_, rfl, rfl⟩
    exact ⟨h.column_lt, h.row_lt, h.viewport_le, fun _ ↦ withScreen_drawn h.viewport_bound⟩
  · exact ⟨terminal, rfl, h, rfl, by simpa using hpending⟩

/-- A render after the viewport has moved. -/
theorem Settled.moveViewport {terminal : Terminal} (h : terminal.Settled) {viewportY : ℕ}
    (hviewport : viewportY ≤ terminal.cursorY - 24) :
    ∃ after, { terminal with viewportY := viewportY }.vgaRender = some after ∧ after.Settled ∧
      after.text = terminal.text ∧ after.renderPending = terminal.renderPending := by
  let moved := { terminal with viewportY := viewportY }
  have hbound : moved.viewportY + 25 ≤ 1000 := by
    have hrow := h.row_lt
    change viewportY + 25 ≤ 1000
    omega
  exact ⟨moved.withScreen moved.view, vgaRender_eq moved,
    ⟨h.column_lt, h.row_lt, hviewport, fun _ ↦ withScreen_drawn hbound⟩, rfl, rfl⟩

end Terminal

end NeilOS
