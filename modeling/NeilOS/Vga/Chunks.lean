import Mathlib.Data.List.TakeWhile
import NeilOS.Vga.Screen

/-!
# Output in chunks

How a text is divided into calls decides which cells are written one by one and when the whole screen
is rendered. It does not decide where the terminal ends up: a character acts on the text, the viewport
and the memory after the screen as a function of these three alone, and between calls the screen is
determined by them.
-/

namespace NeilOS

open Foundation Terminal

/-- What a terminal holds apart from its screen. -/
structure Page where
  text : Reference
  viewportY : ℕ
  /-- The cells of the text memory after the 25 × 80 of the screen. -/
  rest : ℕ → Cell

/-- A character, with the viewport following the cursor down. -/
def Page.put (c : Byte) (page : Page) : Page :=
  { page with
    text := Terminal.put c page.text
    viewportY := max page.viewportY ((Terminal.put c page.text).line - 24) }

namespace Terminal

def page (terminal : Terminal) : Page :=
  ⟨terminal.text, terminal.viewportY, fun index ↦ terminal.vgaMemory (25 * 80 + index)⟩

/-! ## What a character leaves alone -/

theorem storeVga_rest {terminal after : Terminal} {index : ℕ} {cell : Cell}
    (h : terminal.storeVga index cell = some after) : after.page.rest = terminal.page.rest := by
  unfold storeVga at h
  split_ifs at h with hindex
  rw [← Option.some.inj h]
  funext other
  have hbeyond : 25 * 80 + other ≠ index := by omega
  change Function.update terminal.vgaMemory index cell (25 * 80 + other) = _
  rw [Function.update_apply, if_neg hbeyond]
  rfl

theorem putCell_rest {terminal after : Terminal} {cell : Cell}
    (h : terminal.putCell cell = some after) : after.page.rest = terminal.page.rest := by
  unfold putCell at h
  obtain ⟨stored, hstore, hwrite⟩ := Option.bind_eq_some_iff.mp h
  have hstored : stored.page.rest = terminal.page.rest := by
    unfold store at hstore
    split_ifs at hstore
    rw [← Option.some.inj hstore]
    rfl
  rw [← hstored]
  unfold vgaWriteCell at hwrite
  split_ifs at hwrite
  · exact storeVga_rest hwrite
  · rw [Option.some.inj hwrite]

theorem wrap_rest (terminal : Terminal) : terminal.wrap.page.rest = terminal.page.rest := by
  unfold wrap
  split_ifs <;> rfl

theorem interpret_rest {terminal after : Terminal} {c : Byte}
    (h : terminal.interpret c = some after) : after.page.rest = terminal.page.rest := by
  unfold interpret at h
  split_ifs at h with htab hnewline hreturn hbackspace hpositive
  · rw [← Option.some.inj h]
    exact wrap_rest _
  · rw [← Option.some.inj h]
    rfl
  · rw [← Option.some.inj h]
    rfl
  · exact (putCell_rest h).trans rfl
  · rw [Option.some.inj h]
  · obtain ⟨written, hput, hmove⟩ := Option.bind_eq_some_iff.mp h
    rw [← Option.some.inj hmove, ← putCell_rest hput]
    exact wrap_rest _

theorem shiftLines_rest {terminal after : Terminal} (h : terminal.shiftLines = some after) :
    after.page.rest = terminal.page.rest := by
  unfold shiftLines at h
  rw [sweep_moveLines, Option.bind_eq_bind, Option.bind_some, countUp_clearLine] at h
  rw [← Option.some.inj h]
  rfl

/-! ## One character -/

theorem vgaFollowCursor_viewportY (terminal : Terminal) :
    terminal.vgaFollowCursor.viewportY = max terminal.viewportY (terminal.text.line - 24) := by
  change _ = max terminal.viewportY (terminal.cursorY - 24)
  unfold vgaFollowCursor
  split_ifs with hbelow
  · change terminal.cursorY - 25 + 1 = _
    omega
  · omega

theorem vgaFollowCursor_rest (terminal : Terminal) :
    terminal.vgaFollowCursor.page.rest = terminal.page.rest := by
  unfold vgaFollowCursor
  split_ifs <;> rfl

theorem Settled.vgaPutcharRaw_page {terminal : Terminal} (h : terminal.Settled) (c : Byte) :
    ∃ after, terminal.vgaPutcharRaw c = some after ∧ after.Settled ∧
      after.page = terminal.page.put c := by
  obtain ⟨after, hput, hafter, htext⟩ := h.vgaPutcharRaw c
  refine ⟨after, hput, hafter, ?_⟩
  obtain ⟨middle, hinterpret, hmiddle⟩ := interpret_spec c h.column_lt h.row_lt
  -- The lines are moved up or not; either way the viewport and the rest of the memory stay.
  obtain ⟨shifted, hfollow, hview, hrest⟩ : ∃ shifted : Terminal, after = shifted.vgaFollowCursor ∧
      shifted.viewportY = terminal.viewportY ∧ shifted.page.rest = terminal.page.rest := by
    unfold Terminal.vgaPutcharRaw at hput
    rw [hinterpret, Option.bind_eq_bind, Option.bind_some] at hput
    by_cases hend : 1000 ≤ middle.cursorY
    · obtain ⟨shifted, hshift, -, hview, -⟩ := shiftLines_eq hend
      rw [if_pos hend, hshift] at hput
      exact ⟨shifted, (Option.some.inj hput).symm, hview.trans hmiddle.viewportY_eq,
        (shiftLines_rest hshift).trans (interpret_rest hinterpret)⟩
    · rw [if_neg hend] at hput
      exact ⟨middle, (Option.some.inj hput).symm, hmiddle.viewportY_eq, interpret_rest hinterpret⟩
  have hsame : shifted.text = after.text := by rw [hfollow, vgaFollowCursor_text]
  have hviewport : after.viewportY = max terminal.viewportY (after.text.line - 24) := by
    rw [← hsame, ← hview, hfollow, vgaFollowCursor_viewportY]
  have hmemory : after.page.rest = terminal.page.rest := by
    rw [hfollow, vgaFollowCursor_rest, hrest]
  change (⟨after.text, after.viewportY, after.page.rest⟩ : Page) = _
  rw [hviewport, hmemory, htext]
  rfl

/-! ## Texts -/

theorem Settled.vgaFlush_page {terminal : Terminal} (h : terminal.Settled) :
    ∃ after, terminal.vgaFlush = some after ∧ after.Ready ∧ after.page = terminal.page := by
  obtain ⟨after, hflush, hafter, -, hidle⟩ := h.vgaFlush
  refine ⟨after, hflush, ⟨hafter, hidle⟩, ?_⟩
  unfold Terminal.vgaFlush at hflush
  split_ifs at hflush with hpending
  · rw [vgaRender_eq] at hflush
    rw [← Option.some.inj hflush]
    unfold page
    congr 1
    funext index
    exact if_neg (by omega)
  · rw [Option.some.inj hflush]

theorem Settled.putAll_page {terminal : Terminal} (h : terminal.Settled) (text : List Byte) :
    ∃ after, terminal.putAll text = some after ∧ after.Settled ∧
      after.page = text.foldl (fun page c ↦ page.put c) terminal.page := by
  induction text generalizing terminal with
  | nil => exact ⟨terminal, rfl, h, rfl⟩
  | cons c text ih =>
    obtain ⟨middle, hput, hmiddle, hpage⟩ := h.vgaPutcharRaw_page c
    obtain ⟨after, hrest, hafter, hfold⟩ := ih hmiddle
    refine ⟨after, ?_, hafter, ?_⟩
    · rw [putAll_cons, hput, Option.bind_some, hrest]
    · rw [hfold, hpage, List.foldl_cons]

theorem Settled.chunk {terminal : Terminal} (h : terminal.Settled) (text : List Byte) :
    ∃ after, (terminal.putAll text).bind Terminal.vgaFlush = some after ∧ after.Ready ∧
      after.page = text.foldl (fun page c ↦ page.put c) terminal.page := by
  obtain ⟨middle, hput, hmiddle, hfold⟩ := h.putAll_page text
  obtain ⟨after, hflush, hafter, hpage⟩ := hmiddle.vgaFlush_page
  exact ⟨after, by rw [hput, Option.bind_some, hflush], hafter, hpage.trans hfold⟩

/-- Each chunk written and flushed on its own. -/
theorem Ready.chunks {terminal : Terminal} (h : terminal.Ready) (chunks : List (List Byte)) :
    ∃ after, chunks.foldlM (fun terminal text ↦ (terminal.putAll text).bind Terminal.vgaFlush)
        terminal = some after ∧ after.Ready ∧
      after.page = chunks.flatten.foldl (fun page c ↦ page.put c) terminal.page := by
  induction chunks generalizing terminal with
  | nil => exact ⟨terminal, rfl, h, rfl⟩
  | cons text chunks ih =>
    obtain ⟨middle, hchunk, hmiddle, hpage⟩ := h.chunk text
    obtain ⟨after, hrest, hafter, hfold⟩ := ih hmiddle
    refine ⟨after, ?_, hafter, ?_⟩
    · rw [List.foldlM_cons, hchunk, Option.bind_eq_bind, Option.bind_some, hrest]
    · rw [hfold, hpage, List.flatten_cons, List.foldl_append]

/-- Between calls the screen is determined by the rest. -/
theorem Ready.eq_of_page {terminal other : Terminal} (h : terminal.Ready) (hother : other.Ready)
    (hpage : terminal.page = other.page) : terminal = other := by
  have htext : terminal.text = other.text := congrArg Page.text hpage
  have hviewport : terminal.viewportY = other.viewportY := congrArg Page.viewportY hpage
  have hlines : terminal.terminalBuffer = other.terminalBuffer := congrArg Reference.lines htext
  have hmemory : terminal.vgaMemory = other.vgaMemory := by
    funext index
    by_cases hindex : index < 25 * 80
    · have hcell := h.shows h.idle (index / 80) (by omega) (index % 80) (by omega)
      have hothercell := hother.shows hother.idle (index / 80) (by omega) (index % 80) (by omega)
      rw [Nat.div_add_mod'] at hcell hothercell
      rw [hcell, hothercell, hlines, hviewport]
    · have hbeyond := congrFun (congrArg Page.rest hpage) (index - 25 * 80)
      change terminal.vgaMemory (25 * 80 + (index - 25 * 80)) =
        other.vgaMemory (25 * 80 + (index - 25 * 80)) at hbeyond
      rwa [Nat.add_sub_cancel' (Nat.le_of_not_lt hindex)] at hbeyond
  have hidle : terminal.renderPending = other.renderPending := h.idle.trans hother.idle.symm
  cases terminal
  cases other
  cases hlines
  cases hmemory
  cases hviewport
  cases hidle
  cases htext
  rfl

/-- The division of a text into chunks does not matter. -/
theorem Ready.chunks_eq {terminal : Terminal} (h : terminal.Ready) (chunks : List (List Byte)) :
    chunks.foldlM (fun terminal text ↦ (terminal.putAll text).bind Terminal.vgaFlush) terminal =
      (terminal.putAll chunks.flatten).bind Terminal.vgaFlush := by
  obtain ⟨after, hchunks, hafter, hpage⟩ := h.chunks chunks
  obtain ⟨final, htext, hfinal, hfinalpage⟩ := h.chunk chunks.flatten
  rw [hchunks, htext, hafter.eq_of_page hfinal (hpage.trans hfinalpage.symm)]

/-! ## The calls -/

theorem stringText_of_notMem {str : List Byte} (h : 0 ∉ str) : stringText str = str := by
  refine List.takeWhile_eq_self_iff.mpr fun c hc ↦ ?_
  have hnonzero : c ≠ 0 := fun hzero ↦ h (hzero ▸ hc)
  exact decide_eq_true hnonzero

theorem expansion_string (str : List Byte) :
    expansion [ascii '%', ascii 's'] [.string (some str)] = some (stringText str) := by
  have hconversion : conversion (ascii 's') [.string (some str)] = some (stringText str, []) := rfl
  simp only [expansion]
  rw [if_neg (by decide), if_neg (by decide), if_neg (by decide), hconversion]
  exact congrArg some (List.append_nil _)

/-- **Output does not depend on its division into calls.** From every state reached after `vga_init`,
writing two strings at once, one after the other, character by character, or through `%s` ends in the
same terminal: buffer, cursor, viewport, pending render and all of the text memory. -/
theorem writes_agree {history : List VgaCall} {terminal : Terminal}
    (hrun : Run Initial Step history terminal) {s t : List Byte} (hs : 0 ∉ s) (ht : 0 ∉ t) :
    ∃ final,
      terminal.vgaWrite (s ++ t) = some final ∧
      (terminal.vgaWrite s).bind (fun middle ↦ middle.vgaWrite t) = some final ∧
      (s ++ t).foldlM (fun terminal c ↦ terminal.vgaPutchar c) terminal = some final ∧
      terminal.fvgaWrite [ascii '%', ascii 's'] [.string (some (s ++ t))] =
        some ((s ++ t).length, final) := by
  have hready := ready_of_run hrun
  have hboth : 0 ∉ s ++ t := fun hmem ↦ (List.mem_append.mp hmem).elim hs ht
  obtain ⟨final, hfinal, -⟩ := hready.chunk (s ++ t)
  refine ⟨final, ?_, ?_, ?_, ?_⟩
  · rw [vgaWrite_eq, stringText_of_notMem hboth, hfinal]
  · have hpair := hready.chunks_eq [s, t]
    rw [List.flatten_cons, List.flatten_cons, List.flatten_nil, List.append_nil, hfinal] at hpair
    rw [← hpair, List.foldlM_cons, vgaWrite_eq, stringText_of_notMem hs]
    refine congrArg (Option.bind _) (funext fun middle ↦ ?_)
    rw [vgaWrite_eq, stringText_of_notMem ht]
    exact (Option.bind_fun_some _).symm
  · have hsingles := hready.chunks_eq ((s ++ t).map ([·]))
    rw [List.foldlM_map, ← List.flatMap_def, List.flatMap_singleton', hfinal] at hsingles
    rw [← hsingles]
    refine congrArg (fun put ↦ List.foldlM put terminal (s ++ t)) (funext fun other ↦ funext fun c ↦ ?_)
    exact vgaPutchar_eq c other
  · rw [fvgaWrite_eq, expansion_string, stringText_of_notMem hboth, Option.bind_some, hfinal]
    rfl

/-- `vga_write("A")` and `vga_write("B")` after `vga_init` come to `vga_write("AB")`. -/
theorem writes_agree_first :
    ∃ terminal final, Run Initial Step [] terminal ∧
      terminal.vgaWrite [ascii 'A', ascii 'B'] = some final ∧
      (terminal.vgaWrite [ascii 'A']).bind (fun middle ↦ middle.vgaWrite [ascii 'B']) = some final := by
  have hinitial : ((booted fun _ ↦ 0).cleared).Initial := ⟨fun _ ↦ 0, vgaClear_eq _⟩
  have hs : (0 : Byte) ∉ [ascii 'A'] := by decide
  have ht : (0 : Byte) ∉ [ascii 'B'] := by decide
  obtain ⟨final, hwhole, hparts, -⟩ := writes_agree (.start hinitial) hs ht
  exact ⟨_, final, .start hinitial, hwhole, hparts⟩

end Terminal

end NeilOS
