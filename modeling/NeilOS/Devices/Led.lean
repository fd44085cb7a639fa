import NeilOS.Devices.Keyboard

/-!
# The Caps Lock light as a protocol

The controller must not be written to while its input buffer is full, which bit 1 of the status port
says, and the light's byte has to wait for the keyboard to acknowledge the command `0xED` with `0xFA`
on the data port. `keyboard_wait_input_clear` waits until the bit is set.
-/

namespace NeilOS

open Foundation Program

namespace Devices

/-! ## What the routine exchanges with the controller -/

inductive Exchange where
  | read (port : BitVec 16) (value : Byte)
  | write (port : BitVec 16) (value : Byte)
  deriving DecidableEq

/-- What an operation exchanges, by the number of reads before it. -/
def exchange (inputs : Inputs) : ℕ × DeviceOp → Option Exchange
  | (reads, .inb port) => some (.read port (inputs reads port))
  | (_, .outb port value) => some (.write port value)
  | (_, .vga _) => none

def exchanges {α : Type} (inputs : Inputs) (program : DeviceProgram α) (reads : ℕ) : List Exchange :=
  (events (handle inputs) program reads).filterMap (exchange inputs)

theorem exchanges_bind {α β : Type} {inputs : Inputs} {program : DeviceProgram α}
    {next : α → DeviceProgram β} {reads after : ℕ} {value : α}
    (hexec : exec (handle inputs) program reads = some (value, after)) :
    exchanges inputs (program >>= next) reads =
      exchanges inputs program reads ++ exchanges inputs (next value) after := by
  unfold exchanges
  rw [events_bind hexec, List.filterMap_append]

/-- The value of the last read of the status port. -/
def lastStatus (earlier : List Exchange) : Option Byte :=
  earlier.reverse.findSome? fun
    | .read port value => if port = 0x64 then some value else none
    | .write _ _ => none

theorem lastStatus_append_read (earlier : List Exchange) (status : Byte) :
    lastStatus (earlier ++ [.read 0x64 status]) = some status := by
  unfold lastStatus
  rw [List.reverse_append]
  rfl

/-- The routine returns. A byte is written to the data port only if the last status read had the
input buffer empty, and one other than the command only after the command and an acknowledgement
since. -/
structure LedProtocol (inputs : Inputs) (capsLockEnabled : Bool) : Prop where
  terminates : ∃ reads,
    exec (handle inputs) (keyboardSetCapsLockLed capsLockEnabled) 0 = some ((), reads)
  clear : ∀ earlier value later,
    exchanges inputs (keyboardSetCapsLockLed capsLockEnabled) 0 =
      earlier ++ .write 0x60 value :: later →
    ∃ status, lastStatus earlier = some status ∧ status &&& 0x02 = 0
  acknowledged : ∀ earlier value later,
    exchanges inputs (keyboardSetCapsLockLed capsLockEnabled) 0 =
      earlier ++ .write 0x60 value :: later →
    value ≠ 0xED →
    ∃ first rest, earlier = first ++ .write 0x60 0xED :: rest ∧ .read 0x60 0xFA ∈ rest

/-! ## The loops -/

/-- The two operations of the routine. -/
def Polls (op : DeviceOp) : Prop := op = .inb 0x64 ∨ ∃ value, op = .outb 0x60 value

section Loops

variable {inputs : Inputs}

theorem pollStatus_reads (mask : Byte) (attempts reads : ℕ) :
    Meets (handle inputs) (fun _ op ↦ op = .inb 0x64) (pollStatus mask attempts) reads
      fun _ _ ↦ True := by
  induction attempts generalizing reads with
  | zero => trivial
  | succ attempts ih =>
    rw [pollStatus, meets_bind, meets_inb]
    refine ⟨rfl, ?_⟩
    split_ifs
    · trivial
    · exact ih (reads + 1)

theorem awaitAcknowledge_reads (attempts reads : ℕ) :
    Meets (handle inputs) (fun _ op ↦ op = .inb 0x64) (awaitAcknowledge attempts) reads
      fun _ _ ↦ True := by
  induction attempts generalizing reads with
  | zero => trivial
  | succ attempts ih =>
    rw [awaitAcknowledge, meets_bind, meets_inb]
    refine ⟨rfl, ?_⟩
    split_ifs
    · rw [meets_bind, meets_inb]
      refine ⟨rfl, ?_⟩
      split_ifs <;> trivial
    · exact ih (reads + 1)

theorem keyboardWaitInputClear_polls (reads : ℕ) :
    Meets (handle inputs) (fun _ op ↦ Polls op) keyboardWaitInputClear reads fun _ _ ↦ True :=
  (pollStatus_reads 0x02 100000 reads).allow fun _ _ ↦ Or.inl

theorem keyboardSetCapsLockLed_polls (capsLockEnabled : Bool) (reads : ℕ) :
    Meets (handle inputs) (fun _ op ↦ Polls op) (keyboardSetCapsLockLed capsLockEnabled) reads
      fun _ _ ↦ True := by
  unfold keyboardSetCapsLockLed
  refine (keyboardWaitInputClear_polls reads).bind fun ready reads _ ↦ ?_
  cases ready with
  | false => trivial
  | true =>
    rw [if_pos rfl, meets_bind, meets_outb]
    refine ⟨.inr ⟨0xED, rfl⟩, ?_⟩
    have hawait : Meets (handle inputs) (fun _ op ↦ Polls op) (awaitAcknowledge 100000) reads
        fun _ _ ↦ True := (awaitAcknowledge_reads 100000 reads).allow fun _ _ ↦ Or.inl
    refine hawait.bind fun acknowledged reads _ ↦ ?_
    match acknowledged with
    | none => trivial
    | some false => trivial
    | some true =>
      refine (keyboardWaitInputClear_polls reads).bind fun ready reads _ ↦ ?_
      cases ready with
      | false => trivial
      | true =>
        rw [if_pos rfl, meets_outb]
        exact ⟨.inr ⟨_, rfl⟩, trivial⟩

/-- The bit is clear at every attempt. -/
theorem exec_pollStatus_of_clear {mask : Byte} {attempts reads : ℕ}
    (hclear : ∀ attempt < attempts, inputs (reads + attempt) 0x64 &&& mask = 0) :
    exec (handle inputs) (pollStatus mask attempts) reads = some (false, reads + attempts) := by
  induction attempts generalizing reads with
  | zero => rfl
  | succ attempts ih =>
    have hfirst : ¬ inputs reads 0x64 &&& mask ≠ 0 := not_not.mpr (hclear 0 attempts.succ_pos)
    rw [pollStatus, exec_bind, (performs_inb 0x64 reads).exec_eq, Option.bind_some, if_neg hfirst,
      ih fun attempt hattempt ↦ ?_]
    · rw [Nat.add_assoc, Nat.add_comm 1]
    · rw [Nat.add_assoc, Nat.add_comm 1]
      exact hclear (attempt + 1) (Nat.succ_lt_succ hattempt)

/-- The loop stops right after a read with the bit set. -/
theorem exchanges_pollStatus_of_set {mask : Byte} {attempts reads : ℕ}
    (hset : ∃ attempt < attempts, inputs (reads + attempt) 0x64 &&& mask ≠ 0) :
    ∃ earlier status after,
      exec (handle inputs) (pollStatus mask attempts) reads = some (true, after) ∧
      exchanges inputs (pollStatus mask attempts) reads = earlier ++ [.read 0x64 status] ∧
      status &&& mask ≠ 0 := by
  induction attempts generalizing reads with
  | zero =>
    obtain ⟨attempt, hattempt, -⟩ := hset
    exact absurd hattempt attempt.not_lt_zero
  | succ attempts ih =>
    rw [pollStatus, exec_bind, exchanges_bind (performs_inb 0x64 reads).exec_eq,
      (performs_inb 0x64 reads).exec_eq, Option.bind_some]
    by_cases hfirst : inputs reads 0x64 &&& mask ≠ 0
    · rw [if_pos hfirst]
      exact ⟨[], inputs reads 0x64, reads + 1, rfl, rfl, hfirst⟩
    · rw [if_neg hfirst]
      have hlater : ∃ attempt < attempts, inputs (reads + 1 + attempt) 0x64 &&& mask ≠ 0 := by
        obtain ⟨attempt, hattempt, hbit⟩ := hset
        cases attempt with
        | zero => exact absurd hbit hfirst
        | succ attempt =>
          refine ⟨attempt, Nat.lt_of_succ_lt_succ hattempt, ?_⟩
          rwa [Nat.add_assoc, Nat.add_comm 1]
      obtain ⟨earlier, status, after, hexec, hexchanges, hbit⟩ := ih hlater
      rw [hexchanges]
      exact ⟨_ :: earlier, status, after, hexec, rfl, hbit⟩

end Loops

/-! ## The routine -/

/-- No bit is found set: the routine gives up before its first write. -/
theorem no_write_of_clear {inputs : Inputs} (capsLockEnabled : Bool)
    (hclear : ∀ read < 100000, inputs read 0x64 &&& 0x02 = 0) (port : BitVec 16) (value : Byte) :
    .write port value ∉ exchanges inputs (keyboardSetCapsLockLed capsLockEnabled) 0 := by
  have hexec : exec (handle inputs) keyboardWaitInputClear 0 = some (false, 0 + 100000) := by
    apply exec_pollStatus_of_clear
    intro attempt hattempt
    rw [Nat.zero_add]
    exact hclear attempt hattempt
  have hrest : exchanges inputs (pure () : DeviceProgram Unit) (0 + 100000) = [] := rfl
  intro hwrite
  unfold keyboardSetCapsLockLed at hwrite
  rw [exchanges_bind hexec, if_neg Bool.false_ne_true, hrest, List.append_nil] at hwrite
  obtain ⟨⟨reads, op⟩, hevent, hop⟩ := List.mem_filterMap.mp hwrite
  obtain rfl : op = .inb 0x64 := (pollStatus_reads 0x02 100000 0).events _ hevent
  cases hop

/-- A bit is found set: the command is written right after it. -/
theorem write_of_set {inputs : Inputs} (capsLockEnabled : Bool)
    (hset : ∃ read < 100000, inputs read 0x64 &&& 0x02 ≠ 0) :
    ∃ earlier status later,
      exchanges inputs (keyboardSetCapsLockLed capsLockEnabled) 0 =
        earlier ++ .write 0x60 0xED :: later ∧
      lastStatus earlier = some status ∧ status &&& 0x02 ≠ 0 := by
  have hpoll : ∃ attempt < 100000, inputs (0 + attempt) 0x64 &&& 0x02 ≠ 0 := by
    simpa only [Nat.zero_add] using hset
  obtain ⟨earlier, status, after, hexec, hexchanges, hstatus⟩ := exchanges_pollStatus_of_set hpoll
  change exec _ keyboardWaitInputClear _ = _ at hexec
  change exchanges _ keyboardWaitInputClear _ = _ at hexchanges
  unfold keyboardSetCapsLockLed
  rw [exchanges_bind hexec, hexchanges, if_pos rfl, exchanges_bind (performs_outb 0x60 0xED after).exec_eq]
  exact ⟨earlier ++ [.read 0x64 status], status, _, rfl, lastStatus_append_read earlier status, hstatus⟩

theorem data_port_not_read (inputs : Inputs) (capsLockEnabled : Bool) (value : Byte) :
    .read 0x60 value ∉ exchanges inputs (keyboardSetCapsLockLed capsLockEnabled) 0 := by
  intro hread
  obtain ⟨⟨reads, op⟩, hevent, hop⟩ := List.mem_filterMap.mp hread
  obtain rfl | ⟨written, rfl⟩ := (keyboardSetCapsLockLed_polls capsLockEnabled 0).events _ hevent
  · cases hop
  · cases hop

/-- **The light.** The protocol is kept just when no read of the status port that the first loop makes
has the input buffer full; nothing is written then. The acknowledgement is looked for in the status
port, and the data port is never read. -/
theorem led_protocol_iff (inputs : Inputs) (capsLockEnabled : Bool) :
    (LedProtocol inputs capsLockEnabled ↔ ∀ read < 100000, inputs read 0x64 &&& 0x02 = 0) ∧
      ∀ value, .read 0x60 value ∉ exchanges inputs (keyboardSetCapsLockLed capsLockEnabled) 0 := by
  refine ⟨⟨fun hprotocol ↦ ?_, fun hclear ↦ ?_⟩, data_port_not_read inputs capsLockEnabled⟩
  · by_contra hset
    push Not at hset
    obtain ⟨earlier, status, later, hexchanges, hlast, hbit⟩ := write_of_set capsLockEnabled hset
    obtain ⟨clear, hclear, hzero⟩ := hprotocol.clear earlier 0xED later hexchanges
    rw [hlast, Option.some.injEq] at hclear
    rw [hclear] at hbit
    exact hbit hzero
  · have hnone : ∀ earlier value later,
        exchanges inputs (keyboardSetCapsLockLed capsLockEnabled) 0 ≠
          earlier ++ .write 0x60 value :: later := by
      intro earlier value later hexchanges
      apply no_write_of_clear capsLockEnabled hclear 0x60 value
      rw [hexchanges]
      exact List.mem_append_right earlier List.mem_cons_self
    constructor
    · obtain ⟨done, reads, hexec, -⟩ := (keyboardSetCapsLockLed_polls capsLockEnabled 0).exec
      exact ⟨reads, hexec⟩
    · intro earlier value later hexchanges
      exact absurd hexchanges (hnone earlier value later)
    · intro earlier value later hexchanges
      exact absurd hexchanges (hnone earlier value later)

/-- The command is written to a full buffer, and the light's byte without an acknowledgement. -/
theorem led_written_to_full_buffer :
    exchanges (fun read _ ↦ [0x02, 0x01, 0x00, 0x02].getD read 0x00) (keyboardSetCapsLockLed true) 0 =
        [.read 0x64 0x02, .write 0x60 0xED, .read 0x64 0x01, .read 0x64 0x00, .read 0x64 0x02,
          .write 0x60 0x04] ∧
      ¬ LedProtocol (fun read _ ↦ [0x02, 0x01, 0x00, 0x02].getD read 0x00) true := by
  have hexchanges : exchanges (fun read _ ↦ [0x02, 0x01, 0x00, 0x02].getD read 0x00)
      (keyboardSetCapsLockLed true) 0 =
        [.read 0x64 0x02, .write 0x60 0xED, .read 0x64 0x01, .read 0x64 0x00, .read 0x64 0x02,
          .write 0x60 0x04] := rfl
  refine ⟨hexchanges, fun hprotocol ↦ ?_⟩
  obtain ⟨status, hlast, hzero⟩ := hprotocol.clear [.read 0x64 0x02] 0xED _ hexchanges
  obtain rfl : 0x02 = status := Option.some.inj hlast
  exact absurd hzero (by decide)

end Devices

end NeilOS
