import NeilOS.Vga.Screen

/-!
# Scrollback

The terminal's buffer is a window of 1000 lines onto the reference terminal. The window starts at the
first line, follows the cursor once it is full, and otherwise stays in place, so that only the oldest
lines are lost.
-/

namespace NeilOS

open Foundation Terminal

namespace Reference

/-- What a call does to the reference terminal: a character never shifts a line, and a clear starts
from blank lines again. -/
def perform : VgaCall → Reference → Option Reference :=
  VgaCall.act putchar fun reference ↦ blank reference.vgaColor

/-- The reference terminal after the calls of a history, newest first. -/
def after : List VgaCall → Option Reference
  | [] => some (blank (color 0xF 0x0))
  | call :: older => (after older).bind (perform call)

end Reference

/-- The first 1000 lines of `text` are the lines of `reference` from `base` on, with the same cursor
and colour. -/
structure Window (base : ℕ) (reference text : Reference) : Prop where
  cursorX_eq : text.cursorX = reference.cursorX
  line_eq : reference.line = base + text.line
  vgaColor_eq : text.vgaColor = reference.vgaColor
  rows : ∀ row < 1000, ∀ x < 80, text.lines row x = reference.lines (base + row) x

namespace Window

variable {base : ℕ} {reference text : Reference}

theorem moveTo (h : Window base reference text) (column : ℕ) :
    Window base { reference with cursorX := column } { text with cursorX := column } :=
  ⟨rfl, h.line_eq, h.vgaColor_eq, h.rows⟩

theorem lineFeed (h : Window base reference text) :
    Window base reference.lineFeed text.lineFeed := by
  have hline : reference.line + 1 = base + (text.line + 1) := by
    rw [h.line_eq]
    rfl
  exact ⟨rfl, hline, h.vgaColor_eq, h.rows⟩

theorem wrapped (h : Window base reference text) : Window base reference.wrapped text.wrapped := by
  unfold Reference.wrapped
  rw [h.cursorX_eq]
  split_ifs
  · exact h
  · exact h.lineFeed

theorem write (h : Window base reference text) (cell : Cell) :
    Window base (reference.write cell) (text.write cell) := by
  refine ⟨h.cursorX_eq, h.line_eq, h.vgaColor_eq, fun row hrow x hx ↦ ?_⟩
  have hline := h.line_eq
  change setCell text.lines text.line text.cursorX cell row x =
    setCell reference.lines reference.line reference.cursorX cell (base + row) x
  unfold setCell
  rw [h.rows row hrow x hx, h.cursorX_eq]
  congr 1
  simp only [eq_iff_iff]
  omega

theorem putchar (h : Window base reference text) (c : Byte) :
    Window base (reference.putchar c) (text.putchar c) := by
  have hentry : entry c text.vgaColor = entry c reference.vgaColor := by rw [h.vgaColor_eq]
  unfold Reference.putchar
  rw [h.cursorX_eq, hentry]
  split_ifs with htab hnewline hreturn hbackspace hzero
  · exact (h.moveTo _).wrapped
  · exact h.lineFeed
  · exact h.moveTo 0
  · exact h
  · exact (h.moveTo _).write clearEntry
  · exact ((h.write _).moveTo _).wrapped

end Window

/-- The buffer holds the last lines of the reference terminal, and all of them until it is full.
Below the cursor the reference terminal is blank. -/
structure Follows (reference text : Reference) : Prop where
  column_lt : reference.cursorX < 80
  line_lt : text.line < 1000
  kept : text.line = reference.line ∨ text.line = 999
  window : Window (reference.line - text.line) reference text
  fresh : ∀ line, reference.line < line → ∀ x < 80, reference.lines line x = clearEntry

namespace Follows

variable {reference text : Reference}

theorem of_erase (reference text : Reference) (hcolor : text.vgaColor = reference.vgaColor) :
    Follows (.blank reference.vgaColor) (erase text) where
  column_lt := Nat.zero_lt_succ 79
  line_lt := Nat.zero_lt_succ 999
  kept := .inl rfl
  window := ⟨rfl, rfl, hcolor, fun _ hrow _ hx ↦ if_pos ⟨hrow, hx⟩⟩
  fresh := fun _ _ _ _ ↦ rfl

/-- The window moves down by one line exactly when the cursor leaves it. -/
theorem put (h : Follows reference text) (c : Byte) :
    Follows (reference.putchar c) (put c text) := by
  obtain ⟨hcolumn, hup, hdown, -, hother⟩ := Reference.putchar_spec c h.column_lt
  have hwindow := h.window.putchar c
  have hstart := h.window.line_eq
  have hline := hwindow.line_eq
  have hlt := h.line_lt
  have hfresh : ∀ line, reference.line < line → ∀ x < 80,
      (reference.putchar c).lines line x = clearEntry := by
    intro line hbelow x hx
    rw [hother line hbelow.ne']
    exact h.fresh line hbelow x hx
  have hstill : ∀ line, (reference.putchar c).line < line → ∀ x < 80,
      (reference.putchar c).lines line x = clearEntry :=
    fun line hbelow ↦ hfresh line (hup.trans_lt hbelow)
  unfold Terminal.put Reference.scrolled
  split_ifs with hend
  · have hlast : (text.putchar c).line = 1000 := by omega
    have hbase : (reference.putchar c).line - 999 = reference.line - text.line + 1 := by omega
    refine ⟨hcolumn, Nat.lt_succ_self 999, .inr rfl, ⟨hwindow.cursorX_eq, ?_, hwindow.vgaColor_eq, ?_⟩, hstill⟩
    · change (reference.putchar c).line = (reference.putchar c).line - 999 + 999
      omega
    · intro row hrow x hx
      change (if row < 1000 ∧ x < 80 then if row < 999 then (text.putchar c).lines (row + 1) x
        else clearEntry else _) = (reference.putchar c).lines ((reference.putchar c).line - 999 + row) x
      rw [if_pos ⟨hrow, hx⟩, hbase]
      split_ifs with hmoved
      · rw [hwindow.rows (row + 1) (by omega) x hx, Nat.add_assoc, Nat.add_comm 1]
      · -- The line the cursor has just entered.
        exact (hfresh _ (by omega) x hx).symm
  · have hbase : (reference.putchar c).line - (text.putchar c).line = reference.line - text.line := by
      omega
    refine ⟨hcolumn, by omega, ?_, hbase ▸ hwindow, hstill⟩
    rcases h.kept with hsame | hfull
    · left
      omega
    · right
      omega

theorem foldl (h : Follows reference text) (characters : List Byte) :
    Follows (characters.foldl (fun reference c ↦ reference.putchar c) reference)
      (characters.foldl (fun text c ↦ Terminal.put c text) text) := by
  induction characters generalizing reference text with
  | nil => exact h
  | cons c characters ih => exact ih (h.put c)

theorem setColor (h : Follows reference text) (vgaColor : Byte) :
    Follows { reference with vgaColor := vgaColor } { text with vgaColor := vgaColor } :=
  ⟨h.column_lt, h.line_lt, h.kept,
    ⟨h.window.cursorX_eq, h.window.line_eq, rfl, h.window.rows⟩, h.fresh⟩

/-- A call that does something to the buffer's text does the same to the reference terminal. -/
theorem act (h : Follows reference text) (call : VgaCall) {newText : Reference}
    (hact : call.act Terminal.put erase text = some newText) :
    ∃ newReference, reference.perform call = some newReference ∧ Follows newReference newText := by
  have hcolor := h.window.vgaColor_eq
  unfold Reference.perform
  cases call with
  | putchar c =>
    cases hact
    exact ⟨_, rfl, h.put c⟩
  | write str =>
    cases hact
    exact ⟨_, rfl, h.foldl (stringText str)⟩
  | fwrite fmt args =>
    obtain ⟨characters, hexpansion, hwritten⟩ := Option.bind_eq_some_iff.mp hact
    cases hwritten
    exact ⟨_, Option.bind_eq_some_iff.mpr ⟨characters, hexpansion, rfl⟩, h.foldl characters⟩
  | scrollUp | scrollDown | pageUp | pageDown =>
    cases hact
    exact ⟨reference, rfl, h⟩
  | setColor fg bg =>
    cases hact
    exact ⟨_, rfl, h.setColor _⟩
  | setForeground fg =>
    cases hact
    rw [hcolor]
    exact ⟨_, rfl, h.setColor _⟩
  | setBackground bg =>
    cases hact
    rw [hcolor]
    exact ⟨_, rfl, h.setColor _⟩
  | clear =>
    cases hact
    exact ⟨_, rfl, of_erase reference text hcolor⟩

end Follows

theorem Terminal.Initial.follows {terminal : Terminal} (h : terminal.Initial) :
    Follows (.blank (color 0xF 0x0)) terminal.text := by
  obtain ⟨vgaMemory, hinit⟩ := h
  rw [vgaInit, vgaClear_eq, Option.some.injEq] at hinit
  rw [← hinit]
  exact Follows.of_erase (booted vgaMemory).text (booted vgaMemory).text rfl

theorem follows_of_run {history : List VgaCall} {terminal : Terminal}
    (hrun : Run Initial Step history terminal) :
    ∃ reference, Reference.after history = some reference ∧ Follows reference terminal.text := by
  refine hrun.induct (fun history terminal ↦
    ∃ reference, Reference.after history = some reference ∧ Follows reference terminal.text)
    (fun _ hinitial ↦ ⟨_, rfl, hinitial.follows⟩) ?_
  intro history before call after hprefix ⟨reference, hreference, hfollows⟩ hstep
  rcases (ready_of_run hprefix).perform call with ⟨final, hperform, -, hact⟩ | ⟨-, hnone, -⟩
  · rw [Step, hperform, Option.some.injEq] at hstep
    rw [← hstep]
    obtain ⟨newReference, hnew, hfollows⟩ := hfollows.act call hact
    refine ⟨newReference, ?_, hfollows⟩
    rw [Reference.after, hreference, Option.bind_some, hnew]
  · rw [Step, hnone] at hstep
    exact absurd hstep nofun

/-- **Lossless scrollback.** After every run the reference terminal that made the same calls has the
same column, and the buffer holds its lines up to the 999th before the cursor: only the oldest lines
are gone, none of the others is missing, moved or stale. -/
theorem scrollback_lossless {history : List VgaCall} {terminal : Terminal}
    (hrun : Run Initial Step history terminal) :
    ∃ reference, Reference.after history = some reference ∧
      terminal.cursorX = reference.cursorX ∧ terminal.cursorY = min reference.line 999 ∧
      ∀ row < 1000, ∀ x < 80, terminal.terminalBuffer row x =
        reference.lines (reference.line - terminal.cursorY + row) x := by
  obtain ⟨reference, hafter, hfollows⟩ := follows_of_run hrun
  refine ⟨reference, hafter, hfollows.window.cursorX_eq, ?_, hfollows.window.rows⟩
  have hline := hfollows.window.line_eq
  have hlt := hfollows.line_lt
  have hkept := hfollows.kept
  change terminal.text.line = min reference.line 999
  omega

theorem Reference.foldl_lineFeeds (count : ℕ) (reference : Reference) :
    (List.replicate (count + 1) 0x0A).foldl (fun reference c ↦ reference.putchar c) reference =
      ⟨reference.lines, 0, reference.line + (count + 1), reference.vgaColor⟩ := by
  induction count generalizing reference with
  | zero => rfl
  | succ count ih =>
    have hline : reference.line + 1 + (count + 1) = reference.line + (count + 1 + 1) := by omega
    rw [List.replicate_succ, List.foldl_cons, ih, ← hline]
    rfl

/-- Two lines and 999 more newlines: the buffer has been shifted by one line, so the second line is now its
first one, and the last one is where the cursor is. -/
theorem scrollback_lossless_shifted :
    ∃ terminal, Run Initial Step
        [.write ([ascii 'A', 0x0A, ascii 'C'] ++ (List.replicate 999 0x0A ++ [ascii 'B']))] terminal ∧
      terminal.cursorX = 1 ∧ terminal.cursorY = 999 ∧ terminal.terminalBuffer 0 0 = 0x0F43 ∧
      terminal.terminalBuffer 999 0 = 0x0F42 := by
  let str : List Byte := [ascii 'A', 0x0A, ascii 'C'] ++ (List.replicate 999 0x0A ++ [ascii 'B'])
  have hinitial : ((booted fun _ ↦ 0).cleared).Initial := ⟨fun _ ↦ 0, vgaClear_eq _⟩
  have htext : stringText str = str := by
    have hfirst : ∀ c ∈ [ascii 'A', 0x0A, ascii 'C'], decide (c ≠ 0) = true := by decide
    have hfeeds : ∀ c ∈ List.replicate 999 (0x0A : Byte), decide (c ≠ 0) = true := by
      intro c hc
      rw [List.eq_of_mem_replicate hc]
      decide
    unfold stringText str
    rw [List.takeWhile_append_of_pos hfirst, List.takeWhile_append_of_pos hfeeds]
    rfl
  rcases hinitial.ready.perform (.write str) with ⟨terminal, hperform, -⟩ | ⟨hmissing, -⟩
  · have hrun : Run Initial Step [.write str] terminal := (Run.start hinitial).step hperform
    obtain ⟨reference, hafter, hcolumn, hrow, hlines⟩ := scrollback_lossless hrun
    let second : Reference :=
      ([ascii 'A', 0x0A, ascii 'C'] : List Byte).foldl (fun reference c ↦ reference.putchar c)
        (.blank (color 0xF 0x0))
    have hreference : reference =
        ⟨setCell second.lines 1000 0 (entry (ascii 'B') second.vgaColor), 1, 1000, second.vgaColor⟩ :=
      calc reference
          = (stringText str).foldl (fun reference c ↦ reference.putchar c) (.blank (color 0xF 0x0)) :=
            (Option.some.inj hafter).symm
        _ = (List.replicate 999 0x0A ++ [ascii 'B']).foldl (fun reference c ↦ reference.putchar c) second := by
            rw [htext, List.foldl_append]
        _ = Reference.putchar (ascii 'B') ⟨second.lines, 0, 1 + 999, second.vgaColor⟩ := by
            rw [List.foldl_append, Reference.foldl_lineFeeds 998 second]
            rfl
        _ = _ := rfl
    subst hreference
    have hcursor : terminal.cursorY = 999 := hrow
    have hshift : 1000 - terminal.cursorY = 1 := by omega
    have hrows (row : ℕ) (hrow : row < 1000) : terminal.terminalBuffer row 0 =
        setCell second.lines 1000 0 (entry (ascii 'B') second.vgaColor) (1 + row) 0 := by
      rw [← hshift]
      exact hlines row hrow 0 (by decide)
    have hfirst : setCell second.lines 1000 0 (entry (ascii 'B') second.vgaColor) 1 0 = 0x0F43 := by decide
    have hlast : setCell second.lines 1000 0 (entry (ascii 'B') second.vgaColor) 1000 0 = 0x0F42 := by decide
    exact ⟨terminal, hrun, hcolumn, hcursor, (hrows 0 (by decide)).trans hfirst,
      (hrows 999 (by decide)).trans hlast⟩
  · exact absurd trivial hmissing

end NeilOS
