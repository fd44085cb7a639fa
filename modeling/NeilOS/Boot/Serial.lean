import NeilOS.Boot.Start
import NeilOS.Foundation.Text

/-!
# The serial port of the kernel's entry

`serial_init` programs the port through two registers that share their addresses with others, and `serial_puts`
sends a text byte by byte, each when the transmitter is empty. Both work on the stack of their caller and leave
the rest of the memory alone.
-/

namespace NeilOS.Start

open Foundation Program

section Serial

variable {status : ℕ → Byte} {patience : ℕ} {machine : Machine} {regs : Registers} {image : StartImage}

theorem exec_outb {port : BitVec 16} (hport : port ≠ 0x92) (value : Byte) :
    exec (handle status) (outb port value) machine =
      some ((), { machine with uart := machine.uart.write port value }) := by
  refine (Option.bind_fun_some _).trans ?_
  change machine.outb port value = _
  rw [Machine.outb, if_neg hport]

theorem exec_outPort {port : BitVec 16} (hport : port ≠ 0x92) (value : Byte) :
    exec (handle status) (outPort port value regs) machine =
      some ({ regs with edx := regs.edx.setHalf port, eax := { regs.eax with low := value } },
        { machine with uart := machine.uart.write port value }) := by
  rw [outPort, exec_bind]
  dsimp only
  rw [Register.half_setHalf, exec_outb hport]
  rfl

/-- The port after `serial_init`: the divisor 12 for 9600 baud and 8 data bits. If the access to the divisor was
open before, the write that should turn the interrupts off has gone to the divisor. -/
def initialised (uart : Uart) : Uart where
  interruptEnable := if uart.lineControl.getLsbD 7 then uart.interruptEnable else 0x00
  divisorLow := 0x0C
  divisorHigh := 0x00
  lineControl := 0x03
  fifoControl := 0xC7
  modemControl := 0x0B
  empty := uart.empty
  sent := uart.sent

theorem Uart.write_divisorLow {uart : Uart} (h : uart.lineControl.getLsbD 7 = true) (value : Byte) :
    uart.write 0x3F8 value = { uart with divisorLow := value } :=
  if_pos h

theorem Uart.write_divisorHigh {uart : Uart} (h : uart.lineControl.getLsbD 7 = true) (value : Byte) :
    uart.write 0x3F9 value = { uart with divisorHigh := value } :=
  if_pos h

theorem Uart.write_interruptEnable {uart : Uart} (h : uart.lineControl.getLsbD 7 = false) (value : Byte) :
    uart.write 0x3F9 value = { uart with interruptEnable := value } :=
  if_neg (Bool.eq_false_iff.mp h)

theorem Uart.write_sent {uart : Uart} (h : uart.lineControl.getLsbD 7 = false) (hempty : uart.empty = true)
    (value : Byte) : uart.write 0x3F8 value = { uart with empty := false, sent := uart.sent ++ [value] } :=
  (if_neg (Bool.eq_false_iff.mp h)).trans (if_pos hempty)

/-- The port after some more bytes. -/
def Uart.send (text : List Byte) (empty : Bool) (uart : Uart) : Uart :=
  { uart with empty := empty, sent := uart.sent ++ text }

theorem Uart.send_send (uart : Uart) (first second : List Byte) (empty other : Bool) :
    (uart.send first empty).send second other = uart.send (first ++ second) other := by
  unfold Uart.send
  rw [List.append_assoc]

/-- The writes behind the first one, with the access to the divisor open in between. -/
theorem write_divisor (uart : Uart) :
    (((((uart.write 0x3FB 0x80).write 0x3F8 0x0C).write 0x3F9 0x00).write 0x3FB 0x03).write 0x3FA 0xC7).write
      0x3FC 0x0B = ⟨uart.interruptEnable, 0x0C, 0x00, 0x03, 0xC7, 0x0B, uart.empty, uart.sent⟩ := by
  have hopen : (0x80 : Byte).getLsbD 7 = true := by decide
  have hlow : (uart.write 0x3FB 0x80).write 0x3F8 0x0C = { uart with lineControl := 0x80, divisorLow := 0x0C } :=
    @Uart.write_divisorLow { uart with lineControl := 0x80 } hopen 0x0C
  have hhigh : ((uart.write 0x3FB 0x80).write 0x3F8 0x0C).write 0x3F9 0x00 =
      { uart with lineControl := 0x80, divisorLow := 0x0C, divisorHigh := 0x00 } := by
    rw [hlow]
    exact @Uart.write_divisorHigh { uart with lineControl := 0x80, divisorLow := 0x0C } hopen 0x00
  rw [hhigh]
  rfl

theorem write_initialised (uart : Uart) :
    ((((((uart.write 0x3F9 0x00).write 0x3FB 0x80).write 0x3F8 0x0C).write 0x3F9 0x00).write 0x3FB 0x03).write
      0x3FA 0xC7).write 0x3FC 0x0B = initialised uart := by
  unfold initialised
  cases h : uart.lineControl.getLsbD 7 with
  | true =>
    rw [Uart.write_divisorHigh h]
    exact write_divisor _
  | false =>
    rw [Uart.write_interruptEnable h]
    exact write_divisor _

/-- One write of `serial_init`, with the rest of the routine behind it. -/
theorem exec_outPort_bind {port : BitVec 16} (hport : port ≠ 0x92) {value : Byte} {esp : Word}
    {next : Registers → StartProgram Registers} {last : Machine}
    (hnext : ∀ regs : Registers, regs.esp = esp → ∃ inner : Registers, inner.esp = esp ∧
      exec (handle status) (next regs) { machine with uart := machine.uart.write port value } = some (inner, last))
    (regs : Registers) (hregs : regs.esp = esp) : ∃ inner : Registers, inner.esp = esp ∧
      exec (handle status) (outPort port value regs >>= next) machine = some (inner, last) := by
  rw [exec_bind, exec_outPort hport, Option.bind_some]
  exact hnext _ hregs

theorem exec_serialInit : ∃ inner : Registers, inner.esp = regs.esp ∧
    exec (handle status) (serialInit regs) machine =
      some (inner, { machine with uart := initialised machine.uart }) := by
  rw [← write_initialised]
  unfold serialInit
  refine exec_outPort_bind (by decide) (fun regs hregs ↦ ?_) regs rfl
  refine exec_outPort_bind (by decide) (fun regs hregs ↦ ?_) regs hregs
  refine exec_outPort_bind (by decide) (fun regs hregs ↦ ?_) regs hregs
  refine exec_outPort_bind (by decide) (fun regs hregs ↦ ?_) regs hregs
  refine exec_outPort_bind (by decide) (fun regs hregs ↦ ?_) regs hregs
  refine exec_outPort_bind (by decide) (fun regs hregs ↦ ?_) regs hregs
  have hport : (0x3FC : BitVec 16) ≠ 0x92 := by decide
  refine ⟨_, ?_, exec_outPort hport 0x0B⟩
  exact hregs

/-- The status says at some time that the transmitter is empty. -/
def Answers (status : ℕ → Byte) (patience : ℕ) : Prop :=
  ∀ reads, ∃ wait < patience, (status (reads + wait)).getLsbD 5 = true

theorem exec_awaitEmpty {wait : ℕ} (hwait : wait < patience)
    (hstatus : (status (machine.reads + wait)).getLsbD 5 = true) :
    ∃ reads, exec (handle status) (awaitEmpty patience) machine =
      some ((), { machine with uart := { machine.uart with empty := true }, reads := reads }) := by
  induction patience generalizing machine wait with
  | zero => exact absurd hwait (Nat.not_lt_zero wait)
  | succ patience ih =>
    have hread : exec (handle status) (inb 0x3FD) machine =
        some (status machine.reads, { machine with
          uart := { machine.uart with empty := (status machine.reads).getLsbD 5 }
          reads := machine.reads + 1 }) :=
      rfl
    rw [awaitEmpty, exec_bind, hread, Option.bind_some]
    dsimp only
    cases hnow : (status machine.reads).getLsbD 5 with
    | true => exact ⟨machine.reads + 1, rfl⟩
    | false =>
      rw [if_neg Bool.false_ne_true]
      cases wait with
      | zero =>
        rw [Nat.add_zero, hnow] at hstatus
        cases hstatus
      | succ wait =>
        let polled : Machine := { machine with
          uart := { machine.uart with empty := false }
          reads := machine.reads + 1 }
        have hlater : (status (polled.reads + wait)).getLsbD 5 = true := by
          change (status (machine.reads + 1 + wait)).getLsbD 5 = true
          rw [Nat.add_assoc, Nat.add_comm 1]
          exact hstatus
        exact @ih polled wait (Nat.lt_of_succ_lt_succ hwait) hlater

/-- A text below the window stays in memory. -/
theorem Kept.text {low high : ℕ} {before after : Machine} (h : Kept low high before after) {pointer : Word}
    {text : List Byte} (htext : TextFrom before.memory (fun esi ↦ esi + 1) pointer text)
    (hbelow : pointer.toNat + text.length < low) (hlow : low ≤ 2 ^ 32) :
    TextFrom after.memory (fun esi ↦ esi + 1) pointer text := by
  apply TextFrom.congr htext
  intro index hindex
  rw [iterate_add_one]
  apply h.memory
  bv_omega

/-- One byte is sent, when the transmitter is empty. -/
theorem exec_serialPutc (hflat : Flat machine) (hstatus : Answers status patience)
    (hclosed : machine.uart.lineControl.getLsbD 7 = false) (hesp : 8 ≤ regs.esp.toNat) :
    ∃ after, exec (handle status) (serialPutc patience regs) machine =
        some ({ regs with edx := regs.edx.setHalf 0x3F8 }, after) ∧
      Kept (regs.esp.toNat - 8) regs.esp.toNat machine after ∧
      after.uart = machine.uart.send [regs.eax.low] false := by
  obtain ⟨wait, hwait, hempty⟩ := hstatus machine.reads
  let first : Machine := { machine with memory := machine.memory.store32 (regs.esp - 4) regs.eax.word }
  let second : Machine := { machine with
    memory := first.memory.store32 (regs.esp - 4 - 4) regs.edx.word }
  have hfirst : Kept (regs.esp.toNat - 8) regs.esp.toNat machine first :=
    (Kept.refl _ _ machine).push regs.eax.word (by omega) (Nat.le_refl _)
  have hsecond : Kept (regs.esp.toNat - 8) regs.esp.toNat machine second :=
    hfirst.push regs.edx.word (by bv_omega) (by bv_omega)
  obtain ⟨reads, hawait⟩ := @exec_awaitEmpty status patience second wait hwait hempty
  let polled : Machine := { second with uart := { second.uart with empty := true }, reads := reads }
  have hpolled : Kept (regs.esp.toNat - 8) regs.esp.toNat machine polled :=
    hsecond.withUart _ reads
  have hflatPolled : Flat polled := hflat.kept hpolled
  have hedx : polled.memory.load32 (regs.esp - 4 - 4) = regs.edx.word := Memory.load32_store32 ..
  have heax : polled.memory.load32 (regs.esp - 4 - 4 + 4) = regs.eax.word :=
    load32_pushed machine.memory regs.eax.word regs.edx.word hesp
  have hback : regs.esp - 4 - 4 + 4 + 4 = regs.esp := by bv_omega
  let after : Machine := { polled with uart := polled.uart.write 0x3F8 regs.eax.low }
  have hsent : after.uart = machine.uart.send [regs.eax.low] false :=
    @Uart.write_sent { machine.uart with empty := true } hclosed rfl regs.eax.low
  refine ⟨after, ?_, hpolled.withUart _ reads, hsent⟩
  rw [serialPutc, exec_bind, exec_push hflat (by omega), Option.bind_some, exec_bind]
  dsimp only
  rw [exec_push (hflat.kept hfirst) (by bv_omega), Option.bind_some, exec_bind]
  dsimp only
  rw [hawait, Option.bind_some, exec_bind]
  dsimp only
  rw [exec_pop hflatPolled (by bv_omega), Option.bind_some, exec_bind]
  dsimp only
  rw [exec_pop hflatPolled (by bv_omega), Option.bind_some]
  dsimp only
  rw [hedx, heax, hback, Register.ofWord_word, Register.ofWord_word, exec_bind, Register.half_setHalf,
    exec_outb (by decide)]
  rfl

/-- The text behind `ESI` is sent. The calls write below the stack pointer, above the text. -/
theorem exec_serialPutsLoop {text : List Byte} {fuel : ℕ} (hflat : Flat machine)
    (hstatus : Answers status patience) (hclosed : machine.uart.lineControl.getLsbD 7 = false)
    (htext : TextFrom machine.memory (fun esi ↦ esi + 1) regs.esi text)
    (hbelow : regs.esi.toNat + text.length + 12 < regs.esp.toNat) (hfuel : text.length < fuel) :
    ∃ inner after, exec (handle status) (serialPutsLoop image patience fuel regs) machine = some (inner, after) ∧
      inner.esp = regs.esp ∧ Kept (regs.esp.toNat - 12) regs.esp.toNat machine after ∧
      ∃ empty, after.uart = machine.uart.send text empty := by
  induction text generalizing fuel regs machine with
  | nil =>
    obtain ⟨fuel, rfl⟩ := Nat.exists_eq_add_of_lt hfuel
    have hend : machine.memory regs.esi = 0 := htext
    have hload := @exec_load status machine hflat regs.esi
    refine ⟨{ regs with eax := { regs.eax with low := 0 }, esi := regs.esi + 1 }, machine, ?_, rfl,
      Kept.refl _ _ machine, machine.uart.empty, ?_⟩
    · rw [serialPutsLoop, exec_bind, hload, Option.bind_some]
      dsimp only
      rw [hend, if_pos rfl]
      rfl
    · rw [Uart.send, List.append_nil]
  | cons byte rest ih =>
    obtain ⟨fuel, rfl⟩ := Nat.exists_eq_add_of_lt hfuel
    obtain ⟨hne, hbyte, hrest⟩ := htext
    rw [List.length_cons] at hbelow
    let loaded : Registers := { regs with eax := { regs.eax with low := byte }, esi := regs.esi + 1 }
    let called : Machine := { machine with memory := machine.memory.store32 (regs.esp - 4) image.afterSerialPutc }
    have hcalled : Kept (regs.esp.toNat - 12) regs.esp.toNat machine called :=
      (Kept.refl _ _ machine).push image.afterSerialPutc (by omega) (Nat.le_refl _)
    obtain ⟨sent, hputc, hsentKept, hsentUart⟩ := @exec_serialPutc status patience called
      { loaded with esp := regs.esp - 4 } (hflat.kept hcalled) hstatus hclosed (by dsimp only; bv_omega)
    dsimp only at hputc hsentKept hsentUart
    have hsent : Kept (regs.esp.toNat - 12) regs.esp.toNat machine sent :=
      hcalled.trans (hsentKept.widen (by bv_omega) (by bv_omega))
    have hreturn : sent.memory.load32 (regs.esp - 4) = image.afterSerialPutc :=
      (hsentKept.load32 (by bv_omega) (Or.inr (Nat.le_refl _))).trans (Memory.load32_store32 ..)
    have hcall := @exec_callNear status machine loaded image.afterSerialPutc (serialPutc patience) _ sent hflat
      (by change 4 ≤ regs.esp.toNat; omega) hputc rfl (hflat.kept hsent) hreturn
    let next : Registers := { loaded with edx := loaded.edx.setHalf 0x3F8 }
    have hnext : next.esi.toNat = regs.esi.toNat + 1 := by
      change (regs.esi + 1).toNat = _
      bv_omega
    have hahead : TextFrom sent.memory (fun esi ↦ esi + 1) next.esi rest :=
      hsent.text hrest (by bv_omega) (by bv_omega)
    have hstill : sent.uart.lineControl.getLsbD 7 = false := by
      rw [hsentUart]
      exact hclosed
    obtain ⟨inner, after, hloop, hdepth, hkept, empty, huart⟩ := @ih sent next ((byte :: rest).length + fuel)
      (hflat.kept hsent) hstill hahead (by rw [hnext]; change _ < regs.esp.toNat; omega)
      (by rw [List.length_cons]; omega)
    refine ⟨inner, after, ?_, hdepth, hsent.trans hkept, empty, ?_⟩
    · rw [serialPutsLoop, exec_bind, exec_load hflat, Option.bind_some]
      dsimp only
      rw [hbyte, if_neg hne, exec_bind, hcall, Option.bind_some]
      exact hloop
    · rw [huart, hsentUart, Uart.send_send]
      rfl

theorem exec_serialPuts {text : List Byte} (hflat : Flat machine) (hstatus : Answers status patience)
    (hclosed : machine.uart.lineControl.getLsbD 7 = false)
    (htext : TextFrom machine.memory (fun esi ↦ esi + 1) regs.esi text)
    (hbelow : regs.esi.toNat + text.length + 20 < regs.esp.toNat) :
    ∃ inner after, exec (handle status) (serialPuts image patience regs) machine = some (inner, after) ∧
      inner.esp = regs.esp ∧ Kept (regs.esp.toNat - 20) regs.esp.toNat machine after ∧
      ∃ empty, after.uart = machine.uart.send text empty := by
  let first : Machine := { machine with memory := machine.memory.store32 (regs.esp - 4) regs.esi }
  let second : Machine := { machine with memory := first.memory.store32 (regs.esp - 4 - 4) regs.eax.word }
  have hfirst : Kept (regs.esp.toNat - 20) regs.esp.toNat machine first :=
    (Kept.refl _ _ machine).push regs.esi (by omega) (Nat.le_refl _)
  have hsecond : Kept (regs.esp.toNat - 20) regs.esp.toNat machine second :=
    hfirst.push regs.eax.word (by bv_omega) (by bv_omega)
  have hahead : TextFrom second.memory (fun esi ↦ esi + 1) regs.esi text :=
    hsecond.text htext (by omega) (by bv_omega)
  have hdeep : (regs.esp - 4 - 4).toNat = regs.esp.toNat - 8 := by bv_omega
  obtain ⟨inner, after, hloop, hdepth, hkept, hsent⟩ := @exec_serialPutsLoop status patience second
    { regs with esp := regs.esp - 4 - 4 } image text (2 ^ 32) (hflat.kept hsecond) hstatus hclosed hahead
    (by change _ < (regs.esp - 4 - 4).toNat; change regs.esi.toNat + _ + _ < _; omega) (by bv_omega)
  dsimp only at hdepth hkept
  rw [hdeep] at hkept
  have hafter : Kept (regs.esp.toNat - 20) regs.esp.toNat machine after :=
    hsecond.trans (hkept.widen (by omega) (by omega))
  have hback : inner.esp + 4 + 4 = regs.esp := by
    rw [hdepth]
    bv_omega
  have hroom : (inner.esp + 4).toNat + 4 ≤ 2 ^ 32 := by
    rw [hdepth]
    bv_omega
  refine ⟨⟨.ofWord (after.memory.load32 inner.esp), inner.edx, after.memory.load32 (inner.esp + 4), regs.esp⟩,
    after, ?_, rfl, hafter, hsent⟩
  rw [serialPuts, exec_bind, exec_push hflat (by omega), Option.bind_some, exec_bind]
  dsimp only
  rw [exec_push (hflat.kept hfirst) (by bv_omega), Option.bind_some, exec_bind]
  dsimp only
  rw [hloop, Option.bind_some, exec_bind]
  dsimp only
  rw [exec_pop (hflat.kept hafter) (by bv_omega), Option.bind_some, exec_bind]
  dsimp only
  rw [exec_pop (hflat.kept hafter) hroom, Option.bind_some]
  dsimp only
  rw [hback]
  rfl

/-- `serial_init` called on a stack. -/
theorem exec_callNear_serialInit (hflat : Flat machine) (hesp : 4 ≤ regs.esp.toNat) (returnAddress : Word) :
    ∃ inner after, exec (handle status) (callNear returnAddress serialInit regs) machine = some (inner, after) ∧
      inner.esp = regs.esp ∧ Kept (regs.esp.toNat - 4) regs.esp.toNat machine after ∧
      after.uart = initialised machine.uart := by
  let called : Machine := { machine with memory := machine.memory.store32 (regs.esp - 4) returnAddress }
  have hcalled : Kept (regs.esp.toNat - 4) regs.esp.toNat machine called :=
    (Kept.refl _ _ machine).push returnAddress (by omega) (Nat.le_refl _)
  obtain ⟨inner, hdepth, hinit⟩ := @exec_serialInit status called { regs with esp := regs.esp - 4 }
  let after : Machine := { called with uart := initialised machine.uart }
  have hafter : Kept (regs.esp.toNat - 4) regs.esp.toNat machine after :=
    hcalled.withUart _ machine.reads
  have hcall := @exec_callNear status machine regs returnAddress serialInit inner after hflat hesp hinit hdepth
    (hflat.kept hafter) (Memory.load32_store32 ..)
  exact ⟨_, after, hcall, rfl, hafter, rfl⟩

/-- `serial_puts` called on a stack above the text. -/
theorem exec_callNear_serialPuts {text : List Byte} (hflat : Flat machine) (hstatus : Answers status patience)
    (hclosed : machine.uart.lineControl.getLsbD 7 = false)
    (htext : TextFrom machine.memory (fun esi ↦ esi + 1) regs.esi text)
    (hbelow : regs.esi.toNat + text.length + 24 < regs.esp.toNat) (returnAddress : Word) :
    ∃ inner after,
      exec (handle status) (callNear returnAddress (serialPuts image patience) regs) machine = some (inner, after) ∧
      inner.esp = regs.esp ∧ Kept (regs.esp.toNat - 24) regs.esp.toNat machine after ∧
      ∃ empty, after.uart = machine.uart.send text empty := by
  let called : Machine := { machine with memory := machine.memory.store32 (regs.esp - 4) returnAddress }
  have hcalled : Kept (regs.esp.toNat - 24) regs.esp.toNat machine called :=
    (Kept.refl _ _ machine).push returnAddress (by omega) (Nat.le_refl _)
  have hahead : TextFrom called.memory (fun esi ↦ esi + 1) regs.esi text :=
    hcalled.text htext (by omega) (by bv_omega)
  have hdeep : (regs.esp - 4).toNat = regs.esp.toNat - 4 := by bv_omega
  have hroom : regs.esi.toNat + text.length + 20 < (regs.esp - 4).toNat := by omega
  obtain ⟨inner, after, hputs, hdepth, hkept, hsent⟩ := @exec_serialPuts status patience called
    { regs with esp := regs.esp - 4 } image text (hflat.kept hcalled) hstatus hclosed hahead hroom
  dsimp only at hdepth hkept
  have hafter : Kept (regs.esp.toNat - 24) regs.esp.toNat machine after :=
    hcalled.trans (hkept.widen (by omega) (by omega))
  have hreturn : after.memory.load32 (regs.esp - 4) = returnAddress :=
    (hkept.load32 (by bv_omega) (Or.inr (Nat.le_refl _))).trans (Memory.load32_store32 ..)
  have hcall := @exec_callNear status machine regs returnAddress (serialPuts image patience) inner after hflat
    (by omega) hputs hdepth (hflat.kept hafter) hreturn
  exact ⟨_, after, hcall, rfl, hafter, hsent⟩

end Serial

end NeilOS.Start
