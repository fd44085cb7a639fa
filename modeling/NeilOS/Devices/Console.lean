import NeilOS.Devices.Interrupts
import NeilOS.Vga.Scrollback

/-!
# From the keys to the screen

The keyboard driver decodes scancodes and calls the terminal driver, which keeps a buffer and draws the
screen. Here the two run together, with every vector of `interrupt_handler` and with the calls that other
code makes: what the screen shows is determined by the bytes the keyboard sent and by those calls.

The calls that print run with interrupts off, and the handler runs behind an interrupt gate, so one call
follows the other.
-/

namespace NeilOS

open Foundation Program

namespace Devices

/-! ## What an interrupt shows -/

/-- The vectors that write nothing, whatever the keyboard sent. -/
def Silent (number : Word) : Prop :=
  number = 32 ∨ number = 49 ∨ number = 50 ∨ 34 ≤ number.toNat ∧ number.toNat ≤ 47

instance (number : Word) : Decidable (Silent number) := inferInstanceAs (Decidable (_ ∨ _))

/-- The call that `interrupt_handler` makes, given the one of the keyboard driver. -/
def vectorCall (number : Word) (echo : Option VgaCall) : Option VgaCall :=
  if number = 33 then echo
  else if Silent number then none
  else some (.write ((report number.toNat).toList.map Terminal.ascii))

theorem vectorCall_silent {number : Word} (h : Silent number) (echo : Option VgaCall) :
    vectorCall number echo = none := by
  have hkeyboard : number ≠ 33 := by
    rintro rfl
    exact absurd h (by decide)
  rw [vectorCall, if_neg hkeyboard, if_pos h]

/-- Commands to the controllers show nothing. -/
theorem screenCalls_picSendEoi (irq : Byte) :
    (if 8 ≤ irq.toNat then [DeviceOp.outb 0xA0 0x20, .outb 0x20 0x20]
      else [.outb 0x20 0x20]).filterMap DeviceOp.screenCall = [] := by
  split_ifs <;> rfl

/-- A call of `interrupt_handler`, in every state: what it shows is that of the vector, and only the
keyboard's vector changes the flags of the keyboard driver. -/
theorem interruptHandler_shows (inputs : Inputs) (regs : Word) {kernel : Kernel} {echo : Option VgaCall}
    (hecho : kernel.keyboard.output (scancode inputs) = echo.toList) :
    ∃ ops value after, Performs (handle inputs) (interruptHandler regs kernel) 0 ops value after ∧
      ops.filterMap DeviceOp.screenCall =
        (vectorCall (kernel.scheduler.memory.load32 (regs + 32)) echo).toList ∧
      value.2.keyboard = if kernel.scheduler.memory.load32 (regs + 32) = 33
        then kernel.keyboard.next (scancode inputs) else kernel.keyboard := by
  unfold interruptHandler
  dsimp only
  generalize kernel.scheduler.memory.load32 (regs + 32) = number
  by_cases hkeyboard : number = 33
  · obtain ⟨ops, after, hperforms, hscreen, -⟩ := keyboardHandler_handles inputs kernel.keyboard 0
    rw [hkeyboard]
    refine ⟨_, _, _, hperforms.bind ((performs_picSendEoi 1 after).map _), ?_, rfl⟩
    rw [List.filterMap_append, hscreen, screenCalls_picSendEoi, List.append_nil]
    exact hecho
  rw [if_neg hkeyboard, if_neg hkeyboard]
  by_cases htick : number = 32
  · rw [if_pos htick, vectorCall_silent (.inl htick)]
    exact ⟨_, _, _, (performs_picSendEoi 0 0).map _, screenCalls_picSendEoi 0, rfl⟩
  rw [if_neg htick]
  by_cases hyield : number = 49
  · rw [if_pos hyield, vectorCall_silent (.inr (.inl hyield))]
    exact ⟨_, _, _, performs_pure _ 0, rfl, rfl⟩
  rw [if_neg hyield]
  by_cases hexit : number = 50
  · rw [if_pos hexit, vectorCall_silent (.inr (.inr (.inl hexit)))]
    exact ⟨_, _, _, performs_pure _ 0, rfl, rfl⟩
  rw [if_neg hexit]
  by_cases hline : 34 ≤ number.toNat ∧ number.toNat ≤ 47
  · rw [if_pos hline, vectorCall_silent (.inr (.inr (.inr hline)))]
    exact ⟨_, _, _, (performs_picSendEoi _ 0).map _, screenCalls_picSendEoi _, rfl⟩
  · have hreported : ¬ Silent number := by
      rintro (h | h | h | h)
      · exact htick h
      · exact hyield h
      · exact hexit h
      · exact hline h
    rw [if_neg hline, vectorCall, if_neg hkeyboard, if_neg hreported]
    exact ⟨_, _, _, (performs_vga _ 0).map _, rfl, rfl⟩

/-! ## The two drivers together -/

/-- An operation with the terminal behind the calls. -/
def display : DeviceOp → Terminal → Option Terminal
  | .vga call, terminal => call.perform terminal
  | .inb _, terminal => some terminal
  | .outb _ _, terminal => some terminal

theorem foldlM_display (ops : List DeviceOp) (terminal : Terminal) :
    ops.foldlM (fun terminal op ↦ display op terminal) terminal =
      (ops.filterMap DeviceOp.screenCall).foldlM (fun terminal call ↦ call.perform terminal) terminal := by
  induction ops generalizing terminal with
  | nil => rfl
  | cons op ops ih =>
    cases op with
    | inb port => exact ih terminal
    | outb port value => exact ih terminal
    | vga call => exact congrArg _ (funext ih)

structure Console where
  keyboard : Keyboard
  ticks : Word
  terminal : Terminal

inductive ConsoleEvent where
  | interrupt (number : Word) (inputs : Inputs)
  | call (call : VgaCall)

namespace Console

/-- The flags and the ticks as they are in the image, after `vga_init`. -/
def Initial (console : Console) : Prop :=
  console.keyboard = .booted ∧ console.ticks = 0 ∧ console.terminal.Initial

/-- One interrupt or one call. Whatever ran since the last interrupt has left the scheduler and the memory in
any state. -/
inductive Step : Console → ConsoleEvent → Console → Prop where
  | interrupt {console : Console} {inputs : Inputs} {regs : Word} {scheduler : Scheduler}
      {value : Word × Kernel} {reads : ℕ} {terminal : Terminal} :
      exec (along (handle inputs) display)
          (interruptHandler regs ⟨console.keyboard, console.ticks, scheduler⟩) (0, console.terminal) =
        some (value, reads, terminal) →
      Step console (.interrupt (scheduler.memory.load32 (regs + 32)) inputs)
        ⟨value.2.keyboard, value.2.ticks, terminal⟩
  | call {console : Console} {call : VgaCall} {terminal : Terminal} :
      call.perform console.terminal = some terminal →
      Step console (.call call) { console with terminal := terminal }

end Console

/-! ## What was typed -/

/-- The bytes of the keyboard, newest first. -/
def typed : List ConsoleEvent → List Byte
  | [] => []
  | .interrupt number inputs :: older =>
      if number = 33 then scancode inputs :: typed older else typed older
  | .call _ :: older => typed older

/-- What a byte shows after the bytes before it. -/
def echo (bytes : List Byte) (byte : Byte) : Option VgaCall :=
  if byte = 0xE0 then none
  else if bytes.head? = some 0xE0 then scrollCall byte
  else if 128 ≤ byte.toNat ∨ byte = 0x2A ∨ byte = 0x36 ∨ byte = 0x3A then none
  else if shiftedEntry bytes byte = 0 then none
  else some (.putchar (shiftedEntry bytes byte))

/-- The calls that the terminal driver has received, newest first. -/
def received : List ConsoleEvent → List VgaCall
  | [] => []
  | .interrupt number inputs :: older =>
      (vectorCall number (echo (typed older) (scancode inputs))).toList ++ received older
  | .call call :: older => call :: received older

theorem Decodes.output_eq {bytes : List Byte} {keyboard : Keyboard} (h : Decodes bytes keyboard)
    (byte : Byte) : keyboard.output byte = (echo bytes byte).toList := by
  unfold Keyboard.output echo
  simp only [h.extended, h.character_eq, apply_ite Option.toList, Option.toList_none, Option.toList_some]

theorem vectorCall_supplied {number : Word} {bytes : List Byte} {byte : Byte} {call : VgaCall}
    (h : vectorCall number (echo bytes byte) = some call) : call.Supplied := by
  unfold vectorCall echo scrollCall at h
  split_ifs at h <;> obtain rfl := Option.some.inj h <;> trivial

/-! ## Every run -/

/-- The flags are those of the bytes, and the terminal has received the calls. -/
structure Traced (history : List ConsoleEvent) (console : Console) : Prop where
  decodes : Decodes (typed history) console.keyboard
  run : Run Terminal.Initial Terminal.Step (received history) console.terminal

namespace Traced

variable {history : List ConsoleEvent} {console after : Console}

/-- An interrupt, computed. -/
theorem interrupt_exec (h : Traced history console) (inputs : Inputs) (regs : Word) (scheduler : Scheduler) :
    ∃ (value : Word × Kernel) (reads : ℕ),
      exec (along (handle inputs) display)
          (interruptHandler regs ⟨console.keyboard, console.ticks, scheduler⟩) (0, console.terminal) =
        ((vectorCall (scheduler.memory.load32 (regs + 32))
          (echo (typed history) (scancode inputs))).toList.foldlM
            (fun terminal (call : VgaCall) ↦ call.perform terminal) console.terminal).map
          (fun terminal ↦ (value, reads, terminal)) ∧
      Decodes (typed (.interrupt (scheduler.memory.load32 (regs + 32)) inputs :: history))
        value.2.keyboard := by
  obtain ⟨ops, value, reads, hperforms, hscreen, hkeyboard⟩ :=
    @interruptHandler_shows inputs regs ⟨console.keyboard, console.ticks, scheduler⟩ _
      (h.decodes.output_eq (scancode inputs))
  refine ⟨value, reads, ?_, ?_⟩
  · rw [hperforms.along, foldlM_display, hscreen]
  · rw [hkeyboard, typed]
    split_ifs
    · exact h.decodes.next (scancode inputs)
    · exact h.decodes

theorem step {event : ConsoleEvent} (h : Traced history console) (hstep : console.Step event after) :
    Traced (event :: history) after := by
  cases hstep with
  | @interrupt inputs regs scheduler value reads terminal hexec =>
    obtain ⟨expected, last, hcomputed, hdecodes⟩ := h.interrupt_exec inputs regs scheduler
    rw [hexec] at hcomputed
    obtain ⟨shown, hshown, heq⟩ := Option.map_eq_some_iff.mp hcomputed.symm
    obtain ⟨rfl, hrest⟩ := Prod.mk.inj heq
    obtain ⟨-, rfl⟩ := Prod.mk.inj hrest
    refine ⟨hdecodes, ?_⟩
    rw [received]
    cases hcall : vectorCall (scheduler.memory.load32 (regs + 32)) (echo (typed history) (scancode inputs)) with
    | none =>
      rw [hcall] at hshown
      obtain rfl := Option.some.inj hshown
      exact h.run
    | some call =>
      rw [hcall, Option.toList_some, List.foldlM_cons] at hshown
      obtain ⟨drawn, hperform, hlast⟩ := Option.bind_eq_some_iff.mp hshown
      obtain rfl := Option.some.inj hlast
      exact h.run.step hperform
  | call hperform => exact ⟨h.decodes, h.run.step hperform⟩

/-- Every interrupt is handled to its end. -/
theorem returns (h : Traced history console) (inputs : Inputs) (regs : Word) (scheduler : Scheduler) :
    ∃ after, console.Step (.interrupt (scheduler.memory.load32 (regs + 32)) inputs) after := by
  obtain ⟨value, reads, hexec, -⟩ := h.interrupt_exec inputs regs scheduler
  cases hcall : vectorCall (scheduler.memory.load32 (regs + 32)) (echo (typed history) (scancode inputs)) with
  | none =>
    rw [hcall] at hexec
    exact ⟨_, .interrupt hexec⟩
  | some call =>
    rw [hcall] at hexec
    rcases (Terminal.ready_of_run h.run).perform call with ⟨terminal, hperform, -⟩ | ⟨hmissing, -⟩
    · rw [Option.toList_some, List.foldlM_cons, hperform] at hexec
      exact ⟨_, .interrupt hexec⟩
    · exact absurd (vectorCall_supplied hcall) hmissing

end Traced

theorem traced_of_run {history : List ConsoleEvent} {console : Console}
    (hrun : Run Console.Initial Console.Step history console) : Traced history console := by
  refine hrun.induct Traced (fun console hinitial ↦ ?_) ?_
  · obtain ⟨hkeyboard, -, hterminal⟩ := hinitial
    refine ⟨?_, .start hterminal⟩
    rw [hkeyboard]
    exact Decodes.booted
  · intro history before event after _ hbefore hstep
    exact hbefore.step hstep

/-- **Echo.** After every sequence of interrupts and calls, the screen shows the part below the viewport of an
unbounded terminal that has received, in their order, the characters and the scrolling that the keyboard's
bytes stand for, the reports of the other vectors and the calls. The viewport lies above the cursor, and
every further interrupt is handled to its end. -/
theorem screen_echoes_keys {history : List ConsoleEvent} {console : Console}
    (hrun : Run Console.Initial Console.Step history console) :
    (∃ reference, Reference.after (received history) = some reference ∧
      console.terminal.cursorX = reference.cursorX ∧
      console.terminal.cursorY = min reference.line 999 ∧
      console.terminal.viewportY ≤ console.terminal.cursorY - 24 ∧
      ∀ y < 25, ∀ x < 80, console.terminal.vgaMemory (y * 80 + x) =
        reference.lines (reference.line - console.terminal.cursorY + (console.terminal.viewportY + y)) x) ∧
    ∀ (inputs : Inputs) (regs : Word) (scheduler : Scheduler),
      ∃ after, console.Step (.interrupt (scheduler.memory.load32 (regs + 32)) inputs) after := by
  have htraced := traced_of_run hrun
  have hready := Terminal.ready_of_run htraced.run
  obtain ⟨reference, hafter, hfollows⟩ := follows_of_run htraced.run
  refine ⟨⟨reference, hafter, hfollows.window.cursorX_eq, ?_, hready.viewport_le, ?_⟩, htraced.returns⟩
  · have hline := hfollows.window.line_eq
    have hlt := hfollows.line_lt
    have hkept := hfollows.kept
    change console.terminal.text.line = min reference.line 999
    omega
  · intro y hy x hx
    have hbound := hready.viewport_bound
    calc console.terminal.vgaMemory (y * 80 + x)
        = console.terminal.terminalBuffer (console.terminal.viewportY + y) x :=
          hready.shows hready.idle y hy x hx
      _ = reference.lines (reference.line - console.terminal.cursorY + (console.terminal.viewportY + y)) x :=
          hfollows.window.rows _ (by omega) x hx

/-- The left shift key is pressed and held, a timer interrupt comes, and then the key `a` is pressed. -/
theorem screen_echoes_keys_shifted : ∃ console,
    Run Console.Initial Console.Step
      [.interrupt 33 (fun _ _ ↦ 0x1E), .interrupt 32 (fun _ _ ↦ 0), .interrupt 33 (fun _ _ ↦ 0x2A)] console ∧
    console.terminal.vgaMemory 0 = 0x0F41 := by
  let scheduler (number : Byte) : Scheduler :=
    { tasks := fun _ ↦ ⟨0, 0, .terminated⟩
      idleTask := ⟨0, 0, .running⟩
      curTask := some .idle
      nextTaskID := 1
      schedulerTicks := 0
      memory := fun address ↦ if address = 32 then number else 0 }
  have hnumber (number : Byte) (hsmall : number = 33 ∨ number = 32) :
      (scheduler number).memory.load32 (0 + 32) = number.setWidth 32 := by
    rcases hsmall with rfl | rfl <;> decide
  have hinitial : (⟨.booted, 0, (Terminal.booted fun _ ↦ 0).cleared⟩ : Console).Initial :=
    ⟨rfl, rfl, fun _ ↦ 0, Terminal.vgaClear_eq _⟩
  have hstart : Run Console.Initial Console.Step [] ⟨.booted, 0, (Terminal.booted fun _ ↦ 0).cleared⟩ :=
    .start hinitial
  obtain ⟨shifted, hshift⟩ := (screen_echoes_keys hstart).2 (fun _ _ ↦ 0x2A) 0 (scheduler 33)
  obtain ⟨ticked, htick⟩ := (screen_echoes_keys (hstart.step hshift)).2 (fun _ _ ↦ 0) 0 (scheduler 32)
  obtain ⟨console, hkey⟩ :=
    (screen_echoes_keys ((hstart.step hshift).step htick)).2 (fun _ _ ↦ 0x1E) 0 (scheduler 33)
  have hrun := ((hstart.step hshift).step htick).step hkey
  rw [hnumber 33 (.inl rfl), hnumber 32 (.inr rfl)] at hrun
  obtain ⟨⟨reference, hafter, -, hcursor, hviewport, hcells⟩, -⟩ := screen_echoes_keys hrun
  have hreference : reference = (Reference.blank (Terminal.color 0xF 0x0)).putchar 0x41 :=
    (Option.some.inj hafter).symm
  rw [hreference] at hcursor hcells
  have hrow : console.terminal.cursorY = 0 := hcursor
  have htop : console.terminal.viewportY = 0 := by omega
  have hcell := hcells 0 (by decide) 0 (by decide)
  rw [hrow, htop] at hcell
  exact ⟨console, hrun, hcell⟩

end Devices

end NeilOS
