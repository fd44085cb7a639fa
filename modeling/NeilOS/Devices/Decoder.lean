import NeilOS.Devices.Led

/-!
# The scancode decoder

A call of `keyboard_handler` reads one byte, and what it does depends on that byte and the four flags.
The flags depend on all bytes before: they are characterised by the history of a run, which is listed
newest first.
-/

namespace NeilOS

open Foundation Program

namespace Devices

/-! ## One call -/

/-- The screen operation of an extended key. -/
def scrollCall (scancode : Byte) : Option VgaCall :=
  if scancode = 0x48 then some .scrollUp
  else if scancode = 0x49 then some .pageUp
  else if scancode = 0x50 then some .scrollDown
  else if scancode = 0x51 then some .pageDown
  else none

namespace Keyboard

/-- The flags after a byte. -/
def next (scancode : Byte) (keyboard : Keyboard) : Keyboard :=
  if scancode = 0xE0 then { keyboard with extendedScancode := true }
  else if keyboard.extendedScancode then { keyboard with extendedScancode := false }
  else if scancode = 0x2A then { keyboard with leftShiftPressed := true }
  else if scancode = 0xAA then { keyboard with leftShiftPressed := false }
  else if scancode = 0x36 then { keyboard with rightShiftPressed := true }
  else if scancode = 0xB6 then { keyboard with rightShiftPressed := false }
  else if scancode = 0x3A then { keyboard with capsLockEnabled := !keyboard.capsLockEnabled }
  else keyboard

/-- The entry of the map that the shift keys select. -/
def character (scancode : Byte) (keyboard : Keyboard) : Byte :=
  if keyboard.leftShiftPressed || keyboard.rightShiftPressed then keyboardShiftMap scancode
  else keyboardMap scancode

/-- The calls a byte makes to the terminal. -/
def output (scancode : Byte) (keyboard : Keyboard) : List VgaCall :=
  if scancode = 0xE0 then []
  else if keyboard.extendedScancode then (scrollCall scancode).toList
  else if 128 ≤ scancode.toNat ∨ scancode = 0x2A ∨ scancode = 0x36 ∨ scancode = 0x3A then []
  else if keyboard.character scancode = 0 then []
  else [.putchar (keyboard.character scancode)]

end Keyboard

/-- An operation that neither shows anything nor ends an interrupt. -/
def Quiet (op : DeviceOp) : Prop := op.screenCall = none ∧ op.eoi = none

theorem Polls.quiet {op : DeviceOp} (h : Polls op) : Quiet op := by
  obtain rfl | ⟨value, rfl⟩ := h
  · exact ⟨rfl, rfl⟩
  · exact ⟨rfl, by simp [DeviceOp.eoi]⟩

/-- What a call of the handler returns, shows and commands. -/
def Handles (inputs : Inputs) (program : DeviceProgram Keyboard) (reads : ℕ) (value : Keyboard)
    (output : List VgaCall) : Prop :=
  ∃ ops after, Performs (handle inputs) program reads ops value after ∧
    ops.filterMap DeviceOp.screenCall = output ∧ ops.filterMap DeviceOp.eoi = [.master]

section Handles

variable {inputs : Inputs} {reads : ℕ}

theorem Handles.after_inb {next : Byte → DeviceProgram Keyboard} {value : Keyboard}
    {output : List VgaCall}
    (h : Handles inputs (next (inputs reads 0x60)) (reads + 1) value output) :
    Handles inputs (inb 0x60 >>= next) reads value output := by
  obtain ⟨ops, after, hperforms, hscreen, heoi⟩ := h
  exact ⟨_, after, (performs_inb 0x60 reads).bind hperforms, hscreen, heoi⟩

/-- Every branch of the handler ends with a command to the master. -/
theorem handles_finish {body : DeviceProgram Unit} {ops : List DeviceOp} {after : ℕ}
    (hbody : Performs (handle inputs) body reads ops () after)
    (hcommands : ops.filterMap DeviceOp.eoi = []) (value : Keyboard) :
    Handles inputs (body >>= fun _ ↦ picSendEoi 1 >>= fun _ ↦ pure value) reads value
      (ops.filterMap DeviceOp.screenCall) := by
  have hend : Performs (handle inputs) (picSendEoi 1) after [.outb 0x20 0x20] () after :=
    performs_picSendEoi 1 after
  refine ⟨_, after, hbody.bind (hend.map fun _ ↦ value), ?_, ?_⟩
  · rw [List.filterMap_append]
    exact List.append_nil _
  · rw [List.filterMap_append, hcommands]
    rfl

theorem handles_eoi (value : Keyboard) :
    Handles inputs (picSendEoi 1 >>= fun _ ↦ pure value) reads value [] :=
  handles_finish (performs_pure () reads) rfl value

theorem handles_quiet {body : DeviceProgram Unit}
    (hbody : Meets (handle inputs) (fun _ op ↦ Quiet op) body reads fun _ _ ↦ True)
    (value : Keyboard) :
    Handles inputs (body >>= fun _ ↦ picSendEoi 1 >>= fun _ ↦ pure value) reads value [] := by
  obtain ⟨ops, done, after, hperforms, hquiet, -⟩ := hbody.performs
  have hscreen : ops.filterMap DeviceOp.screenCall = [] :=
    List.filterMap_eq_nil_iff.mpr fun op hop ↦ (hquiet op hop).1
  have hcommands : ops.filterMap DeviceOp.eoi = [] :=
    List.filterMap_eq_nil_iff.mpr fun op hop ↦ (hquiet op hop).2
  rw [← hscreen]
  exact handles_finish hperforms hcommands value

theorem handles_calls {body : DeviceProgram Unit} {calls : List VgaCall} {after : ℕ}
    (hbody : Performs (handle inputs) body reads (calls.map .vga) () after) (value : Keyboard) :
    Handles inputs (body >>= fun _ ↦ picSendEoi 1 >>= fun _ ↦ pure value) reads value calls := by
  have hscreen : (calls.map DeviceOp.vga).filterMap DeviceOp.screenCall = calls := by
    rw [List.filterMap_map]
    exact List.filterMap_some
  have hcommands : (calls.map DeviceOp.vga).filterMap DeviceOp.eoi = [] := by
    rw [List.filterMap_map]
    exact List.filterMap_eq_nil_iff.mpr fun _ _ ↦ rfl
  have hfinish := handles_finish hbody hcommands value
  rwa [hscreen] at hfinish

theorem performs_keyboardHandlerExtended (scancode : Byte) :
    Performs (handle inputs) (keyboardHandlerExtended scancode) reads
      ((scrollCall scancode).toList.map .vga) () reads := by
  have hreleased : ∀ scancode : Byte, scancode &&& 0x80 ≠ 0 →
      scancode ≠ 0x48 ∧ scancode ≠ 0x49 ∧ scancode ≠ 0x50 ∧ scancode ≠ 0x51 := by decide +kernel
  unfold keyboardHandlerExtended scrollCall
  by_cases hrelease : scancode &&& 0x80 ≠ 0
  · obtain ⟨hup, hpageUp, hdown, hpageDown⟩ := hreleased scancode hrelease
    rw [if_pos hrelease, if_neg hup, if_neg hpageUp, if_neg hdown, if_neg hpageDown]
    exact performs_pure () reads
  · rw [if_neg hrelease]
    split_ifs
    · exact performs_vga .scrollUp reads
    · exact performs_vga .pageUp reads
    · exact performs_vga .scrollDown reads
    · exact performs_vga .pageDown reads
    · exact performs_pure () reads

theorem performs_keyboardPrint {keyboard : Keyboard} {scancode : Byte} (h : scancode.toNat < 128) :
    Performs (handle inputs) (keyboardPrint keyboard scancode) reads
      ((if keyboard.character scancode = 0 then [] else
        [VgaCall.putchar (keyboard.character scancode)]).map .vga) () reads := by
  unfold keyboardPrint
  rw [if_pos h]
  change Performs _ (if keyboard.character scancode ≠ 0 then
    vga (.putchar (keyboard.character scancode)) else pure ()) _ _ _ _
  by_cases hzero : keyboard.character scancode = 0
  · rw [if_neg (not_not.mpr hzero), if_pos hzero]
    exact performs_pure () reads
  · rw [if_pos hzero, if_neg hzero]
    exact performs_vga _ reads

end Handles

theorem break_codes : ∀ scancode : Byte, scancode &&& 0x80 ≠ 0 →
    128 ≤ scancode.toNat ∧ (scancode &&& 0x7F = 42 ↔ scancode = 0xAA) ∧
      (scancode &&& 0x7F = 54 ↔ scancode = 0xB6) ∧ scancode ≠ 0x2A ∧ scancode ≠ 0x36 ∧
      scancode ≠ 0x3A := by
  decide +kernel

theorem make_codes : ∀ scancode : Byte, ¬ scancode &&& 0x80 ≠ 0 →
    scancode.toNat < 128 ∧ scancode ≠ 0xAA ∧ scancode ≠ 0xB6 := by
  decide +kernel

/-- A call of `keyboard_handler`: the flags and the output are those of the byte it reads, and it sends
one end-of-interrupt command on every path. -/
theorem keyboardHandler_handles (inputs : Inputs) (keyboard : Keyboard) (reads : ℕ) :
    Handles inputs (keyboardHandler keyboard) reads (keyboard.next (inputs reads 0x60))
      (keyboard.output (inputs reads 0x60)) := by
  unfold keyboardHandler
  apply Handles.after_inb
  generalize inputs reads 0x60 = scancode
  unfold Keyboard.next Keyboard.output
  by_cases hextended : scancode = 0xE0
  · rw [if_pos hextended, if_pos hextended, if_pos hextended]
    exact handles_eoi _
  rw [if_neg hextended, if_neg hextended, if_neg hextended]
  by_cases hprefixed : keyboard.extendedScancode = true
  · rw [if_pos hprefixed, if_pos hprefixed, if_pos hprefixed]
    exact handles_calls (performs_keyboardHandlerExtended scancode) _
  rw [if_neg hprefixed, if_neg hprefixed, if_neg hprefixed]
  by_cases hrelease : scancode &&& 0x80 ≠ 0
  · obtain ⟨hhigh, hleft, hright, hleftmake, hrightmake, hcaps⟩ := break_codes scancode hrelease
    rw [if_pos hrelease, if_pos (Or.inl hhigh), if_neg hleftmake]
    simp only [hleft, hright]
    by_cases haa : scancode = 0xAA
    · rw [if_pos haa, if_pos haa, if_neg (by rw [haa]; decide)]
      exact handles_eoi _
    · rw [if_neg haa, if_neg haa, if_neg hrightmake]
      by_cases hb6 : scancode = 0xB6
      · rw [if_pos hb6, if_pos hb6]
        exact handles_eoi _
      · rw [if_neg hb6, if_neg hb6, if_neg hcaps]
        exact handles_eoi _
  obtain ⟨hlow, haa, hb6⟩ := make_codes scancode hrelease
  rw [if_neg hrelease]
  by_cases hleft : scancode = 0x2A
  · rw [if_pos hleft, if_pos hleft, if_pos (Or.inr (Or.inl hleft))]
    exact handles_eoi _
  rw [if_neg hleft, if_neg hleft, if_neg haa]
  by_cases hright : scancode = 0x36
  · rw [if_pos hright, if_pos hright, if_pos (Or.inr (Or.inr (Or.inl hright)))]
    exact handles_eoi _
  rw [if_neg hright, if_neg hright, if_neg hb6]
  by_cases hcaps : scancode = 0x3A
  · rw [if_pos hcaps, if_pos hcaps, if_pos (Or.inr (Or.inr (Or.inr hcaps)))]
    exact handles_quiet ((keyboardSetCapsLockLed_polls _ _).allow fun _ _ ↦ Polls.quiet) _
  · have hprints : ¬ (128 ≤ scancode.toNat ∨ scancode = 0x2A ∨ scancode = 0x36 ∨ scancode = 0x3A) := by
      rintro (hhigh | hother | hother | hother)
      · omega
      · exact hleft hother
      · exact hright hother
      · exact hcaps hother
    rw [if_neg hcaps, if_neg hcaps, if_neg hprints]
    exact handles_calls (performs_keyboardPrint hlow) keyboard

/-! ## Histories -/

/-- A byte after an `0xE0`, given the bytes before it. -/
def Prefixed (byte : Byte) (earlier : List Byte) : Prop :=
  byte ≠ 0xE0 ∧ earlier.head? = some 0xE0

instance (byte : Byte) (earlier : List Byte) : Decidable (Prefixed byte earlier) :=
  inferInstanceAs (Decidable (_ ∧ _))

/-- The last byte of `codes` that is not prefixed. -/
def lastUnprefixed (codes : List Byte) : List Byte → Option Byte
  | [] => none
  | byte :: earlier =>
    if byte ∈ codes ∧ ¬ Prefixed byte earlier then some byte else lastUnprefixed codes earlier

/-- How often Caps Lock was pressed. -/
def capsLocks : List Byte → ℕ
  | [] => 0
  | byte :: earlier =>
    if byte = 0x3A ∧ ¬ Prefixed byte earlier then capsLocks earlier + 1 else capsLocks earlier

/-- The key with these two codes is down. -/
def Held (make release : Byte) (bytes : List Byte) : Prop :=
  lastUnprefixed [make, release] bytes = some make

instance (make release : Byte) (bytes : List Byte) : Decidable (Held make release bytes) :=
  inferInstanceAs (Decidable (_ = _))

theorem prefixed_iff {byte : Byte} (hbyte : byte ≠ 0xE0) (earlier : List Byte) :
    Prefixed byte earlier ↔ earlier.head? = some 0xE0 :=
  and_iff_right hbyte

theorem held_cons {make release byte : Byte} {bytes : List Byte} (hmake : make ≠ 0xE0)
    (hrelease : release ≠ 0xE0) (hne : release ≠ make) :
    Held make release (byte :: bytes) ↔
      if byte = make ∧ bytes.head? ≠ some 0xE0 then True
      else if byte = release ∧ bytes.head? ≠ some 0xE0 then False
      else Held make release bytes := by
  unfold Held
  rw [lastUnprefixed]
  by_cases hprefix : bytes.head? = some 0xE0
  · have hignored : ¬ (byte ∈ [make, release] ∧ ¬ Prefixed byte bytes) := by
      rintro ⟨hmem, hunprefixed⟩
      apply hunprefixed
      refine ⟨?_, hprefix⟩
      rcases List.mem_pair.mp hmem with rfl | rfl
      · exact hmake
      · exact hrelease
    rw [if_neg hignored, if_neg fun h ↦ h.2 hprefix, if_neg fun h ↦ h.2 hprefix]
  · have hunprefixed : ¬ Prefixed byte bytes := fun h ↦ hprefix h.2
    by_cases hpressed : byte = make
    · rw [if_pos ⟨by simp [hpressed], hunprefixed⟩, if_pos ⟨hpressed, hprefix⟩, hpressed]
      exact iff_true_intro rfl
    · rw [if_neg fun h : byte = make ∧ _ ↦ hpressed h.1]
      by_cases hreleased : byte = release
      · rw [if_pos ⟨by simp [hreleased], hunprefixed⟩, if_pos ⟨hreleased, hprefix⟩, hreleased]
        exact iff_false_intro fun h ↦ hne (Option.some.inj h)
      · rw [if_neg fun h ↦ (List.mem_pair.mp h.1).elim hpressed hreleased,
          if_neg fun h : byte = release ∧ _ ↦ hreleased h.1]

theorem capsLocks_cons (byte : Byte) (bytes : List Byte) :
    capsLocks (byte :: bytes) =
      if byte = 0x3A ∧ bytes.head? ≠ some 0xE0 then capsLocks bytes + 1 else capsLocks bytes := by
  have hprefixed (h : byte = 0x3A) : Prefixed byte bytes ↔ bytes.head? = some 0xE0 :=
    prefixed_iff (by rw [h]; decide) bytes
  rw [capsLocks]
  exact if_congr (and_congr_right fun h ↦ (hprefixed h).not) rfl rfl

/-! ## The flags -/

namespace Keyboard

variable (byte : Byte) (keyboard : Keyboard)

theorem next_extended : (keyboard.next byte).extendedScancode = true ↔ byte = 0xE0 := by
  simp only [next, apply_ite extendedScancode, ite_self]
  by_cases hextended : byte = 0xE0
  · rw [if_pos hextended]
    exact iff_of_true rfl hextended
  · rw [if_neg hextended]
    cases keyboard.extendedScancode <;> exact iff_of_false Bool.false_ne_true hextended

theorem next_left : (keyboard.next byte).leftShiftPressed =
    if byte = 0x2A ∧ keyboard.extendedScancode = false then true
    else if byte = 0xAA ∧ keyboard.extendedScancode = false then false
    else keyboard.leftShiftPressed := by
  simp only [next, apply_ite leftShiftPressed, ite_self]
  grind

theorem next_right : (keyboard.next byte).rightShiftPressed =
    if byte = 0x36 ∧ keyboard.extendedScancode = false then true
    else if byte = 0xB6 ∧ keyboard.extendedScancode = false then false
    else keyboard.rightShiftPressed := by
  simp only [next, apply_ite rightShiftPressed, ite_self]
  grind

theorem next_caps : (keyboard.next byte).capsLockEnabled =
    if byte = 0x3A ∧ keyboard.extendedScancode = false then !keyboard.capsLockEnabled
    else keyboard.capsLockEnabled := by
  simp only [next, apply_ite capsLockEnabled]
  grind

variable {byte keyboard}

theorem next_prefixed (hbyte : byte ≠ 0xE0) (h : keyboard.extendedScancode = true) :
    keyboard.next byte = { keyboard with extendedScancode := false } := by
  unfold next
  rw [if_neg hbyte, if_pos h]

theorem output_prefixed (hbyte : byte ≠ 0xE0) (h : keyboard.extendedScancode = true) :
    keyboard.output byte = (scrollCall byte).toList := by
  unfold output
  rw [if_neg hbyte, if_pos h]

/-- The make code of a key that is not a shift key or Caps Lock. -/
theorem output_make (hmake : byte.toNat < 128) (hother : byte ∉ [0x2A, 0x36, 0x3A])
    (h : keyboard.extendedScancode = false) :
    keyboard.output byte =
      if keyboard.character byte = 0 then [] else [.putchar (keyboard.character byte)] := by
  have hplain : ∀ byte : Byte, byte.toNat < 128 → byte ∉ ([0x2A, 0x36, 0x3A] : List Byte) →
      byte ≠ 0xE0 ∧ ¬ (128 ≤ byte.toNat ∨ byte = 0x2A ∨ byte = 0x36 ∨ byte = 0x3A) := by
    decide +kernel
  obtain ⟨hbyte, hprints⟩ := hplain byte hmake hother
  unfold output
  rw [if_neg hbyte, if_neg (Bool.eq_false_iff.mp h), if_neg hprints]

end Keyboard

/-- What the flags say about the bytes so far. -/
structure Decodes (bytes : List Byte) (keyboard : Keyboard) : Prop where
  extended : keyboard.extendedScancode = true ↔ bytes.head? = some 0xE0
  left : keyboard.leftShiftPressed = true ↔ Held 0x2A 0xAA bytes
  right : keyboard.rightShiftPressed = true ↔ Held 0x36 0xB6 bytes
  caps : keyboard.capsLockEnabled = true ↔ Odd (capsLocks bytes)

theorem Decodes.booted : Decodes [] .booted := by
  constructor
  · simp [Keyboard.booted]
  · simp [Keyboard.booted, Held, lastUnprefixed]
  · simp [Keyboard.booted, Held, lastUnprefixed]
  · simp [Keyboard.booted, capsLocks]

theorem Decodes.unprefixed_iff {bytes : List Byte} {keyboard : Keyboard} (h : Decodes bytes keyboard) :
    keyboard.extendedScancode = false ↔ bytes.head? ≠ some 0xE0 := by
  rw [← Bool.not_eq_true]
  exact h.extended.not

theorem Decodes.unprefixed_of_make {bytes : List Byte} {keyboard : Keyboard} {byte : Byte}
    (h : Decodes bytes keyboard) (hmake : byte.toNat < 128) (hunprefixed : ¬ Prefixed byte bytes) :
    keyboard.extendedScancode = false := by
  have hbyte : byte ≠ 0xE0 := by
    rintro rfl
    exact absurd hmake (by decide)
  exact h.unprefixed_iff.mpr fun hhead ↦ hunprefixed ⟨hbyte, hhead⟩

/-- A flag that follows the two codes of a key keeps saying whether the key is down. -/
theorem Decodes.held_next {bytes : List Byte} {keyboard : Keyboard} {make release : Byte} {flag : Bool}
    (h : Decodes bytes keyboard) (hflag : flag = true ↔ Held make release bytes)
    (hmake : make ≠ 0xE0) (hrelease : release ≠ 0xE0) (hne : release ≠ make) (byte : Byte) :
    (if byte = make ∧ keyboard.extendedScancode = false then true
      else if byte = release ∧ keyboard.extendedScancode = false then false else flag) = true ↔
    Held make release (byte :: bytes) := by
  rw [held_cons hmake hrelease hne]
  simp only [h.unprefixed_iff]
  split_ifs
  · exact iff_true_intro rfl
  · exact Iff.rfl
  · exact hflag

theorem Decodes.next {bytes : List Byte} {keyboard : Keyboard} (h : Decodes bytes keyboard)
    (byte : Byte) : Decodes (byte :: bytes) (keyboard.next byte) := by
  constructor
  · rw [Keyboard.next_extended, List.head?_cons, Option.some.injEq]
  · rw [Keyboard.next_left]
    exact h.held_next h.left (by decide) (by decide) (by decide) byte
  · rw [Keyboard.next_right]
    exact h.held_next h.right (by decide) (by decide) (by decide) byte
  · rw [Keyboard.next_caps, capsLocks_cons]
    simp only [h.unprefixed_iff]
    split_ifs
    · rw [Bool.not_eq_true', Nat.odd_add_one, ← Bool.not_eq_true]
      exact h.caps.not
    · exact h.caps

/-! ## Runs -/

/-- The byte a call reads. -/
def scancode (inputs : Inputs) : Byte := inputs 0 0x60

def Initial (keyboard : Keyboard) : Prop := keyboard = .booted

/-- One call of `keyboard_handler`, with everything its reads return. -/
def Step (before : Keyboard) (inputs : Inputs) (after : Keyboard) : Prop :=
  ∃ reads, exec (handle inputs) (keyboardHandler before) 0 = some (after, reads)

theorem Step.eq_next {before after : Keyboard} {inputs : Inputs} (h : Step before inputs after) :
    after = before.next (scancode inputs) := by
  obtain ⟨reads, hexec⟩ := h
  obtain ⟨ops, last, hperforms, -⟩ := keyboardHandler_handles inputs before 0
  rw [hperforms.exec_eq, Option.some.injEq, Prod.mk.injEq] at hexec
  exact hexec.1.symm

theorem step_next (before : Keyboard) (inputs : Inputs) :
    Step before inputs (before.next (scancode inputs)) := by
  obtain ⟨ops, reads, hperforms, -⟩ := keyboardHandler_handles inputs before 0
  exact ⟨reads, hperforms.exec_eq⟩

theorem run_booted : Run Initial Step [] .booted := Run.start rfl

theorem decodes_of_run {history : List Inputs} {keyboard : Keyboard}
    (hrun : Run Initial Step history keyboard) : Decodes (history.map scancode) keyboard := by
  refine Run.induct (fun history keyboard ↦ Decodes (history.map scancode) keyboard) ?_ ?_ hrun
  · intro keyboard hinitial
    rw [hinitial]
    exact Decodes.booted
  · intro history before inputs after _ hbefore hstep
    rw [hstep.eq_next]
    exact hbefore.next (scancode inputs)

/-- A shift key is down. -/
def Shifted (bytes : List Byte) : Prop := Held 0x2A 0xAA bytes ∨ Held 0x36 0xB6 bytes

instance (bytes : List Byte) : Decidable (Shifted bytes) := inferInstanceAs (Decidable (_ ∨ _))

/-- The entry of the map for the shift keys held down. -/
def shiftedEntry (bytes : List Byte) (byte : Byte) : Byte :=
  if Shifted bytes then keyboardShiftMap byte else keyboardMap byte

theorem Decodes.character_eq {bytes : List Byte} {keyboard : Keyboard} (h : Decodes bytes keyboard)
    (byte : Byte) : keyboard.character byte = shiftedEntry bytes byte := by
  have hshifted : (keyboard.leftShiftPressed || keyboard.rightShiftPressed) = true ↔ Shifted bytes := by
    rw [Bool.or_eq_true, h.left, h.right]
    exact Iff.rfl
  exact if_congr hshifted rfl rfl

/-- **The decoder.** After any bytes since boot the flags are those of the history. A prefixed byte
leaves the shift and Caps Lock flags alone, and on the screen it scrolls or pages for four codes and
does nothing for the others. An unprefixed make code of a key that is not a shift key or Caps Lock
prints the entry of the map in force, if there is one. -/
theorem decoder_follows_history {history : List Inputs} {keyboard : Keyboard}
    (hrun : Run Initial Step history keyboard) :
    (keyboard.extendedScancode = true ↔ (history.map scancode).head? = some 0xE0) ∧
    (keyboard.leftShiftPressed = true ↔
      lastUnprefixed [0x2A, 0xAA] (history.map scancode) = some 0x2A) ∧
    (keyboard.rightShiftPressed = true ↔
      lastUnprefixed [0x36, 0xB6] (history.map scancode) = some 0x36) ∧
    ∀ inputs : Inputs, ∃ ops after reads,
      Performs (handle inputs) (keyboardHandler keyboard) 0 ops after reads ∧
      (Prefixed (scancode inputs) (history.map scancode) →
        after.leftShiftPressed = keyboard.leftShiftPressed ∧
        after.rightShiftPressed = keyboard.rightShiftPressed ∧
        after.capsLockEnabled = keyboard.capsLockEnabled ∧
        ops.filterMap DeviceOp.screenCall = (scrollCall (scancode inputs)).toList) ∧
      (¬ Prefixed (scancode inputs) (history.map scancode) → (scancode inputs).toNat < 128 →
        scancode inputs ∉ [0x2A, 0x36, 0x3A] →
        ops.filterMap DeviceOp.screenCall =
          if shiftedEntry (history.map scancode) (scancode inputs) = 0 then []
          else [.putchar (shiftedEntry (history.map scancode) (scancode inputs))]) := by
  have hdecodes := decodes_of_run hrun
  refine ⟨hdecodes.extended, hdecodes.left, hdecodes.right, fun inputs ↦ ?_⟩
  obtain ⟨ops, reads, hperforms, hscreen, -⟩ := keyboardHandler_handles inputs keyboard 0
  refine ⟨ops, _, reads, hperforms, fun hprefixed ↦ ?_, fun hunprefixed hmake hother ↦ ?_⟩
  · obtain ⟨hbyte, hhead⟩ := hprefixed
    have hextended := hdecodes.extended.mpr hhead
    have hnext := Keyboard.next_prefixed hbyte hextended
    change keyboard.next (inputs 0 0x60) = _ at hnext
    rw [hscreen, hnext]
    exact ⟨rfl, rfl, rfl, Keyboard.output_prefixed hbyte hextended⟩
  · have hextended := hdecodes.unprefixed_of_make hmake hunprefixed
    rw [hscreen, ← hdecodes.character_eq]
    exact Keyboard.output_make hmake hother hextended

/-- The left shift key pressed, a fake shift release after `0xE0`, and then the key `a`. -/
theorem decoder_follows_history_fake_shift :
    ∃ (history : List Inputs) (keyboard : Keyboard),
      history.map scancode = [0xAA, 0xE0, 0x2A] ∧ Run Initial Step history keyboard ∧
      keyboard.leftShiftPressed = true ∧
      ∀ inputs : Inputs, scancode inputs = 0x1E → ∃ ops after reads,
        Performs (handle inputs) (keyboardHandler keyboard) 0 ops after reads ∧
        ops.filterMap DeviceOp.screenCall = [.putchar 65] := by
  have hrun : Run Initial Step [fun _ _ ↦ 0xAA, fun _ _ ↦ 0xE0, fun _ _ ↦ 0x2A]
      { Keyboard.booted with leftShiftPressed := true } :=
    ((run_booted.step (step_next _ _)).step (step_next _ _)).step (step_next _ _)
  obtain ⟨-, hleft, -, hbyte⟩ := decoder_follows_history hrun
  refine ⟨_, _, rfl, hrun, hleft.mpr (by decide), fun inputs hinputs ↦ ?_⟩
  obtain ⟨ops, after, reads, hperforms, -, hmake⟩ := hbyte inputs
  refine ⟨ops, after, reads, hperforms, ?_⟩
  rw [hinputs] at hmake
  exact hmake (by decide) (by decide) (by decide)

/-! ## Caps Lock

The flag is kept and shown on the keyboard, but the choice of the map does not look at it. -/

/-- The key prints a letter. -/
def LetterKey (byte : Byte) : Prop :=
  97 ≤ (keyboardMap byte).toNat ∧ (keyboardMap byte).toNat ≤ 122

instance (byte : Byte) : Decidable (LetterKey byte) := inferInstanceAs (Decidable (_ ∧ _))

def UpperCase (character : Byte) : Prop := 65 ≤ character.toNat ∧ character.toNat ≤ 90

instance (character : Byte) : Decidable (UpperCase character) := inferInstanceAs (Decidable (_ ∧ _))

theorem letter_codes : ∀ byte : Byte, LetterKey byte →
    byte.toNat < 128 ∧ byte ∉ ([0x2A, 0x36, 0x3A] : List Byte) ∧
      keyboardMap byte ≠ 0 ∧ ¬ UpperCase (keyboardMap byte) ∧
      keyboardShiftMap byte ≠ 0 ∧ UpperCase (keyboardShiftMap byte) := by
  decide +kernel

/-- The case of a letter is that of the shift keys alone. -/
theorem upperCase_shiftedEntry {byte : Byte} (hletter : LetterKey byte) (bytes : List Byte) :
    shiftedEntry bytes byte ≠ 0 ∧ (UpperCase (shiftedEntry bytes byte) ↔ Shifted bytes) := by
  obtain ⟨-, -, hlower, hlowerCase, hupper, hupperCase⟩ := letter_codes byte hletter
  unfold shiftedEntry
  by_cases hshifted : Shifted bytes
  · rw [if_pos hshifted]
    exact ⟨hupper, iff_of_true hupperCase hshifted⟩
  · rw [if_neg hshifted]
    exact ⟨hlower, iff_of_false hlowerCase hshifted⟩

theorem output_letter {bytes : List Byte} {keyboard : Keyboard} {byte : Byte}
    (h : Decodes bytes keyboard) (hletter : LetterKey byte) (hunprefixed : ¬ Prefixed byte bytes) :
    keyboard.output byte = [.putchar (shiftedEntry bytes byte)] := by
  obtain ⟨hmake, hother, -⟩ := letter_codes byte hletter
  rw [Keyboard.output_make hmake hother (h.unprefixed_of_make hmake hunprefixed), h.character_eq,
    if_neg (upperCase_shiftedEntry hletter bytes).1]

theorem iff_xor_iff_not {p q : Prop} : (p ↔ Xor p q) ↔ ¬ q := by
  rw [xor_iff_iff_not]
  tauto

/-- **Caps Lock.** A letter has the case of exactly one of the shift keys and Caps Lock just when Caps
Lock was pressed an even number of times. All other bytes show the same with either value of the
flag. -/
theorem caps_lock_case_iff {history : List Inputs} {keyboard : Keyboard}
    (hrun : Run Initial Step history keyboard) (inputs : Inputs) :
    ∃ ops after reads, Performs (handle inputs) (keyboardHandler keyboard) 0 ops after reads ∧
      (LetterKey (scancode inputs) → ¬ Prefixed (scancode inputs) (history.map scancode) →
        ((∃ letter, ops.filterMap DeviceOp.screenCall = [.putchar letter] ∧
            (UpperCase letter ↔
              Xor (Shifted (history.map scancode)) (Odd (capsLocks (history.map scancode))))) ↔
          Even (capsLocks (history.map scancode)))) ∧
      (¬ (LetterKey (scancode inputs) ∧ ¬ Prefixed (scancode inputs) (history.map scancode)) →
        ∀ flag, ∃ ops' after' reads',
          Performs (handle inputs) (keyboardHandler { keyboard with capsLockEnabled := flag }) 0
            ops' after' reads' ∧
          ops'.filterMap DeviceOp.screenCall = ops.filterMap DeviceOp.screenCall) := by
  have hdecodes := decodes_of_run hrun
  obtain ⟨ops, reads, hperforms, hscreen, -⟩ := keyboardHandler_handles inputs keyboard 0
  refine ⟨ops, _, reads, hperforms, fun hletter hunprefixed ↦ ?_, fun _ flag ↦ ?_⟩
  · have hcase := (upperCase_shiftedEntry hletter (history.map scancode)).2
    have houtput : ops.filterMap DeviceOp.screenCall = _ :=
      hscreen.trans (output_letter hdecodes hletter hunprefixed)
    rw [houtput, ← Nat.not_odd_iff_even, ← iff_xor_iff_not]
    constructor
    · rintro ⟨letter, hprinted, hxor⟩
      obtain rfl : shiftedEntry _ _ = letter := by simpa using hprinted
      exact hcase.symm.trans hxor
    · intro hxor
      exact ⟨_, rfl, hcase.trans hxor⟩
  · obtain ⟨ops', reads', hperforms', hscreen', -⟩ :=
      keyboardHandler_handles inputs { keyboard with capsLockEnabled := flag } 0
    exact ⟨ops', _, reads', hperforms', hscreen'.trans hscreen.symm⟩

/-- Caps Lock pressed twice and a shift key held: the key `a` prints a capital letter, and the key `1` shows the
same with either value of the flag. -/
theorem caps_lock_case_iff_twice_with_shift : ∃ keyboard,
    Run Initial Step [fun _ _ ↦ 0x2A, fun _ _ ↦ 0x3A, fun _ _ ↦ 0x3A] keyboard ∧
      (∃ ops after reads, Performs (handle fun _ _ ↦ 0x1E) (keyboardHandler keyboard) 0 ops after reads ∧
        ∃ letter, ops.filterMap DeviceOp.screenCall = [.putchar letter] ∧ UpperCase letter) ∧
      ∃ ops after reads ops' after' reads',
        Performs (handle fun _ _ ↦ 0x02) (keyboardHandler keyboard) 0 ops after reads ∧
        Performs (handle fun _ _ ↦ 0x02) (keyboardHandler { keyboard with capsLockEnabled := true }) 0
          ops' after' reads' ∧
        ops'.filterMap DeviceOp.screenCall = ops.filterMap DeviceOp.screenCall := by
  have hrun : Run Initial Step [fun _ _ ↦ 0x2A, fun _ _ ↦ 0x3A, fun _ _ ↦ 0x3A]
      { Keyboard.booted with leftShiftPressed := true } :=
    ((run_booted.step (step_next _ _)).step (step_next _ _)).step (step_next _ _)
  obtain ⟨ops, after, reads, hperforms, hletter, -⟩ := caps_lock_case_iff hrun fun _ _ ↦ 0x1E
  obtain ⟨letter, hprinted, hcase⟩ := (hletter (by decide) (by decide)).mpr (by decide)
  obtain ⟨digitOps, digitAfter, digitReads, hdigit, -, hother⟩ := caps_lock_case_iff hrun fun _ _ ↦ 0x02
  obtain ⟨ops', after', reads', hperforms', hsame⟩ := hother (by decide) true
  refine ⟨_, hrun, ⟨ops, after, reads, hperforms, letter, hprinted, hcase.mpr ?_⟩, ?_⟩
  · exact .inl ⟨by decide, by decide⟩
  · exact ⟨digitOps, digitAfter, digitReads, ops', after', reads', hdigit, hperforms', hsame⟩

/-- Caps Lock and then the key `a`: the letter is printed in lower case. -/
theorem caps_lock_prints_lower :
    ∃ (history : List Inputs) (keyboard : Keyboard) (inputs : Inputs) (ops : List DeviceOp)
      (after : Keyboard) (reads : ℕ),
      history.map scancode = [0x3A] ∧ Run Initial Step history keyboard ∧
      scancode inputs = 0x1E ∧ Odd (capsLocks (history.map scancode)) ∧
      ¬ Shifted (history.map scancode) ∧
      Performs (handle inputs) (keyboardHandler keyboard) 0 ops after reads ∧
      ops.filterMap DeviceOp.screenCall = [.putchar 97] := by
  have hrun : Run Initial Step [fun _ _ ↦ 0x3A] { Keyboard.booted with capsLockEnabled := true } :=
    run_booted.step (step_next _ _)
  obtain ⟨ops, reads, hperforms, hscreen, -⟩ :=
    keyboardHandler_handles (fun _ _ ↦ 0x1E) { Keyboard.booted with capsLockEnabled := true } 0
  exact ⟨_, _, _, ops, _, reads, rfl, hrun, rfl, by decide, by decide, hperforms, hscreen⟩

end Devices

end NeilOS
