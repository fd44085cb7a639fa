import NeilOS.Disk.Bios

/-!
# Reading with retries

What the loop at `.retry` does, and with it the whole of `disk_read_sector`: its requests in their order,
what is in the buffer afterwards, and what its caller finds on the stack and in the registers. The C code
calls with four bytes of return address and the routine returns with two, so the caller comes back with
a stack pointer that is two bytes lower than before its `calll`.
-/

namespace NeilOS.Disk

open Foundation Program
open Loader (linearAddress storeSector)

/-! ## The loop -/

section Loop

variable {bios : Bios} {ds : BitVec 16}

/-- The requests of failing attempts: each read is followed by a reset. -/
def failedTries (address : Chs) (buffer : Word) (count : ℕ) : List Request :=
  (List.replicate count [.read address buffer, .reset]).flatten

/-- How `count` attempts at one sector end: with the first that succeeds, or after all have failed. -/
inductive Attempts (bios : Bios) (address : Chs) (buffer : Word) (count : ℕ) (before : Traffic) :
    ℤ → Traffic → Prop where
  | success (failed : ℕ) (hfailed : failed < count)
      (hbefore : ∀ index < failed, bios.succeeds (before.attempts + index) address = false)
      (hsuccess : bios.succeeds (before.attempts + failed) address = true) :
      Attempts bios address buffer count before 0
        ⟨storeSector before.memory buffer (bios.sector (bios.block address)),
          before.attempts + failed + 1,
          before.requests ++ (failedTries address buffer failed ++ [.read address buffer])⟩
  | failure (memory : Memory)
      (hall : ∀ index < count, bios.succeeds (before.attempts + index) address = false)
      (houtside : ∀ target, 512 ≤ (target - buffer).toNat → memory target = before.memory target) :
      Attempts bios address buffer count before (-1)
        ⟨memory, before.attempts + count, before.requests ++ failedTries address buffer count⟩

/-- A sector covers whatever a failing attempt has left in its buffer. -/
theorem storeSector_congr {memory other : Memory} {buffer : Word}
    (h : ∀ target, 512 ≤ (target - buffer).toNat → memory target = other target) (sector : ℕ → Byte) :
    storeSector memory buffer sector = storeSector other buffer sector := by
  funext target
  unfold storeSector
  split_ifs with hinside
  · rfl
  · exact h target (Nat.not_lt.mp hinside)

theorem failedTries_succ (address : Chs) (buffer : Word) (count : ℕ) :
    failedTries address buffer (count + 1) =
      .read address buffer :: .reset :: failedTries address buffer count := by
  rw [failedTries, List.replicate_succ, List.flatten_cons]
  rfl

/-- No attempt is left. -/
theorem Attempts.exhausted {address : Chs} {buffer : Word} (before : Traffic) :
    Attempts bios address buffer 0 before (-1) before := by
  have hnone : ∀ index < 0, bios.succeeds (before.attempts + index) address = false :=
    fun _ hindex ↦ absurd hindex (Nat.not_lt_zero _)
  have hend := @Attempts.failure bios address buffer 0 before before.memory hnone fun _ _ ↦ rfl
  have hrequests : before.requests ++ failedTries address buffer 0 = before.requests :=
    List.append_nil _
  rw [hrequests] at hend
  exact hend

/-- One more attempt in front. -/
theorem Attempts.cons {address : Chs} {buffer : Word} {count : ℕ} {before after : Traffic} {code : ℤ}
    (hfailed : bios.succeeds before.attempts address = false)
    (h : Attempts bios address buffer count
      ⟨bios.leaves before.attempts buffer before.memory, before.attempts + 1,
        before.requests ++ [.read address buffer] ++ [.reset]⟩ code after) :
    Attempts bios address buffer (count + 1) before code after := by
  have hleft := bios.leaves_outside before.attempts buffer before.memory
  have hshift (index : ℕ) : before.attempts + 1 + index = before.attempts + (index + 1) := by omega
  -- Attempt `index + 1` of the longer loop is attempt `index` of the shorter one.
  have hshorter {bound : ℕ}
      (hrest : ∀ index < bound, bios.succeeds (before.attempts + 1 + index) address = false) :
      ∀ index < bound + 1, bios.succeeds (before.attempts + index) address = false := by
    rw [Nat.forall_lt_succ_left]
    refine ⟨hfailed, fun index hindex ↦ ?_⟩
    rw [← hshift]
    exact hrest index hindex
  have hrequests (bound : ℕ) (last : List Request) :
      before.requests ++ [.read address buffer] ++ [.reset] ++ (failedTries address buffer bound ++ last) =
        before.requests ++ (failedTries address buffer (bound + 1) ++ last) := by
    rw [failedTries_succ, List.append_assoc, List.append_assoc]
    rfl
  cases h with
  | success failed hlt hbefore hsuccess =>
    have hlater : bios.succeeds (before.attempts + (failed + 1)) address = true := by
      rw [← hshift]
      exact hsuccess
    rw [storeSector_congr hleft, hshift, hrequests]
    exact .success (failed + 1) (Nat.succ_lt_succ hlt) (hshorter hbefore) hlater
  | failure memory hall houtside =>
    have hlast := hrequests count []
    rw [List.append_nil, List.append_nil] at hlast
    rw [Nat.add_right_comm before.attempts 1 count, hlast]
    exact .failure memory (hshorter hall) fun target htarget ↦
      (houtside target htarget).trans (hleft target htarget)

/-- What a sequence of interrupts leaves as it was. -/
structure Steady (before after : Machine) : Prop where
  sectorsPerTrack_eq : after.sectorsPerTrack = before.sectorsPerTrack
  numHeads_eq : after.numHeads = before.numHeads
  esp_eq : after.esp = before.esp
  stack : KeepsAbove before.esp.toNat before.stack after.stack

theorem Steady.trans {before middle after : Machine} (hfirst : Steady before middle)
    (hsecond : Steady middle after) : Steady before after where
  sectorsPerTrack_eq := hsecond.sectorsPerTrack_eq.trans hfirst.sectorsPerTrack_eq
  numHeads_eq := hsecond.numHeads_eq.trans hfirst.numHeads_eq
  esp_eq := hsecond.esp_eq.trans hfirst.esp_eq
  stack := by
    have hstack := hsecond.stack
    rw [hfirst.esp_eq] at hstack
    exact hfirst.stack.trans hstack

/-- An interrupt, whatever it transfers. -/
theorem steady_serve (request : Request) (machine : Machine) (memory : Memory) (attempts : ℕ) :
    Steady machine { bios.serve request machine with memory := memory, attempts := attempts } :=
  ⟨rfl, rfl, rfl, bios.uses_above _ _ _⟩

theorem meets_entered {machine : Machine} {post : Caller → Machine → Prop} :
    Meets (bios.handle ds) (fun _ _ ↦ True) entered machine post ↔
      post (bios.caller machine.requests.length) (machine.withTop
        ((bios.caller machine.requests.length).esp, (bios.caller machine.requests.length).stack)) := by
  simp [entered, Meets, Bios.handle]

theorem meets_push {machine : Machine} {value : Word} {post : Unit → Machine → Prop} :
    Meets (bios.handle ds) (fun _ _ ↦ True) (push value) machine post ↔
      post () (machine.withTop (Stack.push value (machine.esp, machine.stack))) := by
  simp [push, Meets, Bios.handle]

theorem meets_pop {machine : Machine} {post : Word → Machine → Prop} :
    Meets (bios.handle ds) (fun _ _ ↦ True) pop machine post ↔
      post (machine.stack.load32 machine.esp) { machine with esp := machine.esp + 4 } := by
  simp [pop, Meets, Bios.handle]

theorem meets_pushHalf {machine : Machine} {value : BitVec 16} {post : Unit → Machine → Prop} :
    Meets (bios.handle ds) (fun _ _ ↦ True) (pushHalf value) machine post ↔
      post () (machine.withTop (Stack.pushHalf value (machine.esp, machine.stack))) := by
  simp [pushHalf, Meets, Bios.handle]

theorem meets_popHalf {machine : Machine} {post : BitVec 16 → Machine → Prop} :
    Meets (bios.handle ds) (fun _ _ ↦ True) popHalf machine post ↔
      post (machine.stack.load16 machine.esp) { machine with esp := machine.esp + 2 } := by
  simp [popHalf, Meets, Bios.handle]

theorem meets_callLbaToChs {machine : Machine} {callSite : BitVec 16} {post : Unit → Machine → Prop} :
    Meets (bios.handle ds) (fun _ _ ↦ True) (callLbaToChs callSite) machine post ↔
      post () { machine with stack := machine.stack.store16 (machine.esp - 2) callSite } := by
  have hesp : machine.esp - 2 + 2 = machine.esp := BitVec.sub_add_cancel _ _
  rw [callLbaToChs, meets_bind, meets_pushHalf, meets_bind, meets_popHalf]
  simp only [Machine.withTop, Stack.pushHalf, Memory.load16_store16, hesp]
  exact Iff.rfl

theorem meets_readEsp {machine : Machine} {post : Word → Machine → Prop} :
    Meets (bios.handle ds) (fun _ _ ↦ True) readEsp machine post ↔ post machine.esp machine := by
  simp [readEsp, Meets, Bios.handle]

theorem meets_writeEsp {machine : Machine} {value : Word} {post : Unit → Machine → Prop} :
    Meets (bios.handle ds) (fun _ _ ↦ True) (writeEsp value) machine post ↔
      post () { machine with esp := value } := by
  simp [writeEsp, Meets, Bios.handle]

theorem meets_loadStack {machine : Machine} {offset : Word} {post : Word → Machine → Prop} :
    Meets (bios.handle ds) (fun _ _ ↦ True) (loadStack offset) machine post ↔
      post (machine.stack.load32 offset) machine := by
  simp [loadStack, Meets, Bios.handle]

theorem meets_geometry {machine : Machine} {post : BitVec 16 × BitVec 16 → Machine → Prop} :
    Meets (bios.handle ds) (fun _ _ ↦ True) geometry machine post ↔
      post (machine.sectorsPerTrack, machine.numHeads) machine := by
  simp [geometry, Meets, Bios.handle]

theorem meets_setSectorsPerTrack {machine : Machine} {value : BitVec 16} {post : Unit → Machine → Prop} :
    Meets (bios.handle ds) (fun _ _ ↦ True) (setSectorsPerTrack value) machine post ↔
      post () { machine with sectorsPerTrack := value } := by
  simp [setSectorsPerTrack, Meets, Bios.handle]

theorem meets_setNumHeads {machine : Machine} {value : BitVec 16} {post : Unit → Machine → Prop} :
    Meets (bios.handle ds) (fun _ _ ↦ True) (setNumHeads value) machine post ↔
      post () { machine with numHeads := value } := by
  simp [setNumHeads, Meets, Bios.handle]

theorem meets_int13 {regs : Registers} {machine after : Machine} {answer : Bool × Registers}
    {post : Bool × Registers → Machine → Prop} (h : bios.int13 regs machine = some (answer, after))
    (hpost : post answer after) :
    Meets (bios.handle ds) (fun _ _ ↦ True) (int13 regs) machine post :=
  ⟨trivial, (answer, after), h, hpost⟩

/-- The interrupt of an attempt. The registers it returns differ in `AX` only. -/
theorem int13_read {regs : Registers} {address : Chs} {buffer : Word}
    (h : Requests bios regs address buffer) (machine : Machine) :
    bios.int13 { regs with eax := regs.eax.setHalf 0x0201 } machine = some
      ((!bios.succeeds machine.attempts address,
        { regs with eax := (regs.eax.setHalf 0x0201).setHalf (bios.status machine.requests.length) }),
        { bios.serve (.read address buffer) machine with
          memory := if bios.succeeds machine.attempts address then
              storeSector machine.memory buffer (bios.sector (bios.block address))
            else bios.leaves machine.attempts buffer machine.memory
          attempts := machine.attempts + 1 }) := by
  have hdrive : ¬ regs.edx.low ≠ bios.number := not_not.mpr h.drive
  have hchs : ({ regs with eax := regs.eax.setHalf 0x0201 } : Registers).chs = address := h.chs_eq
  unfold Bios.int13
  dsimp only
  rw [if_neg hdrive, if_pos (Register.half_setHalf _ _), h.buffer_eq, hchs]
  cases bios.succeeds machine.attempts address <;> rfl

/-- The interrupt of a reset. -/
theorem int13_reset {regs : Registers} {address : Chs} {buffer : Word}
    (h : Requests bios regs address buffer) (machine : Machine) :
    bios.int13 { regs with eax := regs.eax.setHalf 0 } machine = some
      ((false,
        { regs with eax := (regs.eax.setHalf 0).setHalf (bios.status machine.requests.length) }),
        bios.serve .reset machine) := by
  have hdrive : ¬ regs.edx.low ≠ bios.number := not_not.mpr h.drive
  have hfunction : (regs.eax.setHalf 0).half ≠ 0x0201 := by
    rw [Register.half_setHalf]
    decide
  unfold Bios.int13
  dsimp only
  rw [if_neg hdrive, if_neg hfunction]
  rfl

/-- The interrupt that asks for the geometry. -/
theorem int13_params {regs : Registers} (hdrive : regs.edx.low = bios.number)
    (hfunction : regs.eax.high = 0x08) (machine : Machine) :
    bios.int13 regs machine = some
      ((!bios.paramsKnown, if bios.paramsKnown then bios.reports machine.requests.length
        else { regs with eax := regs.eax.setHalf (bios.status machine.requests.length) }),
        bios.serve .parameters machine) := by
  have hother : ∀ low : Byte, (0x08 : Byte) ++ low ≠ (0x0201 : BitVec 16) := by decide
  have hread : regs.eax.half ≠ 0x0201 := by
    rw [Register.half, hfunction]
    exact hother regs.eax.low
  have hreset : regs.eax.high ≠ 0x00 := by
    rw [hfunction]
    decide
  unfold Bios.int13
  dsimp only
  rw [if_neg (not_not.mpr hdrive), if_neg hread, if_neg hreset, if_pos hfunction]
  cases bios.paramsKnown <;> rfl

theorem retry_spec {regs : Registers} {address : Chs} {count : ℕ} {buffer : Word} {machine : Machine}
    (h : Requests bios regs address buffer) (hcount : regs.esi.half.toNat = count) (hpositive : 0 < count) :
    Meets (bios.handle ds) (fun _ _ ↦ True) (retry count regs) machine fun code after ↦
      Attempts bios address buffer count machine.toTraffic code after.toTraffic ∧ Steady machine after := by
  induction count generalizing regs machine with
  | zero => omega
  | succ count ih =>
    have hread := int13_read h machine
    rw [retry, meets_bind]
    cases hattempt : bios.succeeds machine.attempts address with
    | true =>
      rw [hattempt, if_pos rfl] at hread
      refine meets_int13 hread ⟨?_, steady_serve _ _ _ _⟩
      exact Attempts.success 0 (Nat.zero_lt_succ _) (fun _ hindex ↦ absurd hindex (Nat.not_lt_zero _))
        hattempt
    | false =>
      have hdecrement : (regs.esi.half - 1).toNat = count := by bv_omega
      rw [hattempt, if_neg Bool.false_ne_true] at hread
      refine meets_int13 hread ?_
      dsimp only
      rw [if_neg (by decide), meets_bind]
      refine meets_int13 (int13_reset ⟨h.drive, h.chs_eq, h.buffer_eq⟩ _) ?_
      dsimp only
      rw [Register.half_setHalf]
      have hsteady : Steady machine (bios.serve .reset { bios.serve (.read address buffer) machine with
          memory := bios.leaves machine.attempts buffer machine.memory
          attempts := machine.attempts + 1 }) :=
        .trans (steady_serve _ _ _ _) ⟨rfl, rfl, rfl, bios.uses_above _ _ _⟩
      by_cases hmore : regs.esi.half - 1 ≠ 0
      · rw [if_pos hmore]
        have hleft : 0 < count := by bv_omega
        refine Meets.mono (ih ?_ ?_ hleft) fun code after hend ↦
          ⟨Attempts.cons hattempt hend.1, hsteady.trans hend.2⟩
        · exact ⟨h.drive, h.chs_eq, h.buffer_eq⟩
        · rw [Register.half_setHalf]
          exact hdecrement
      · rw [if_neg hmore]
        obtain rfl : count = 0 := by bv_omega
        exact ⟨Attempts.cons hattempt (.exhausted _), hsteady⟩

/-! ## The routines -/

/-- How a routine returns: with a 16-bit `ret`, the stack above unchanged and the registers restored. -/
structure Returned (before : Machine) (regs : Registers) (ebp : Word) (exit : Exit) (after : Machine) :
    Prop where
  esi_eq : exit.esi = regs.esi.word
  edi_eq : exit.edi = regs.edi.word
  ebp_eq : exit.ebp = ebp
  ip_eq : exit.ip = before.stack.load16 before.esp
  esp_eq : after.esp = before.esp + 2
  stack : KeepsAbove before.esp.toNat before.stack after.stack

/-- The loop and the end of the routine. The saved registers lie at the stack pointer. -/
theorem readAndReturn_spec {loaded : Registers} {address : Chs} {buffer ebx esi edi ebp : Word}
    {machine : Machine} (hloaded : Requests bios loaded address buffer)
    (hcount : loaded.esi.half.toNat = 3)
    (hsaved : WordsAt machine.stack machine.esp.toNat [edi, esi, ebx, ebp])
    (hinside : machine.esp.toNat ≤ 0xFFF0) :
    Meets (bios.handle ds) (fun _ _ ↦ True) (readAndReturn (machine.esp + 12) (some loaded)) machine
      fun exit after ↦
        Attempts bios address buffer 3 machine.toTraffic exit.code after.toTraffic ∧
        exit = ⟨exit.code, ebx, esi, edi, ebp, machine.stack.load16 (machine.esp + 16)⟩ ∧
        Steady machine { after with esp := machine.esp } ∧ after.esp = machine.esp + 18 := by
  rw [readAndReturn, meets_bind]
  refine (retry_spec hloaded hcount (by decide)).mono fun code after hend ↦ ?_
  obtain ⟨hattempts, hsteady⟩ := hend
  have hkept := hsaved.frame (by change _ + 4 * 4 ≤ _; omega) fun target hlow _ ↦
    hsteady.stack target hlow
  obtain ⟨hedi, hesi, hebx, hebp, -⟩ := hkept
  have hfirst : after.stack.load32 after.esp = edi := by
    rw [hsteady.esp_eq]
    exact Memory.load32_of_toNat hedi rfl
  have hsecond : after.stack.load32 (after.esp + 4) = esi := by
    rw [hsteady.esp_eq]
    exact Memory.load32_of_toNat hesi (by bv_omega)
  have hthird : after.stack.load32 (after.esp + 4 + 4) = ebx := by
    rw [hsteady.esp_eq]
    exact Memory.load32_of_toNat hebx (by bv_omega)
  have hfourth : after.stack.load32 (machine.esp + 12) = ebp :=
    Memory.load32_of_toNat hebp (by bv_omega)
  have hip : after.stack.load16 (machine.esp + 16) = machine.stack.load16 (machine.esp + 16) :=
    hsteady.stack.load16 (by bv_omega) (by bv_omega)
  have hreturn : machine.esp + 12 + 4 = machine.esp + 16 := BitVec.add_assoc _ _ _
  rw [meets_bind, meets_pop, meets_bind, meets_pop, meets_bind, meets_pop, meets_bind, meets_writeEsp,
    meets_bind, meets_pop, meets_bind, meets_popHalf, meets_pure]
  refine ⟨hattempts, ?_, ⟨hsteady.sectorsPerTrack_eq, hsteady.numHeads_eq, rfl, hsteady.stack⟩, ?_⟩
  · change Exit.mk code (after.stack.load32 (after.esp + 4 + 4)) (after.stack.load32 (after.esp + 4))
      (after.stack.load32 after.esp) (after.stack.load32 (machine.esp + 12))
      (after.stack.load16 (machine.esp + 12 + 4)) = _
    rw [hfirst, hsecond, hthird, hfourth, hreturn, hip]
  · change machine.esp + 12 + 4 + 2 = _
    bv_omega

/-- The arguments are read relative to the saved `EBP`, from above the return address at the entry. -/
theorem load32_argument {esp displacement : Word} {before after : Memory}
    (h : KeepsAbove esp.toNat before after) (hinside : esp.toNat ≤ 0xFFF0) (hlow : 4 ≤ displacement.toNat)
    (hhigh : displacement.toNat ≤ 16) :
    after.load32 (esp - 4 + displacement) = before.load32 (esp + (displacement - 4)) := by
  have haddress : esp - 4 + displacement = esp + (displacement - 4) := by bv_omega
  rw [haddress]
  exact h.load32 (by bv_omega) (by bv_omega)

theorem diskReadSector_spec {callSite : BitVec 16} {regs : Registers} {ebp lba : Word}
    {segment offset : BitVec 16} {machine : Machine} (hknown : bios.Known machine)
    (hroom : 18 ≤ machine.esp.toNat) (hinside : machine.esp.toNat ≤ 0xFFF0)
    (hlba : machine.stack.load32 (machine.esp + 4) = lba)
    (hsegment : (machine.stack.load32 (machine.esp + 8)).setWidth 16 = segment)
    (hoffset : (machine.stack.load32 (machine.esp + 12)).setWidth 16 = offset) :
    Meets (bios.handle ds) (fun _ _ ↦ True) (diskReadSector bios.number callSite regs ebp) machine
      fun exit after ↦
        Attempts bios (bios.addressOf lba) (linearAddress segment offset) 3 machine.toTraffic exit.code
          after.toTraffic ∧
        Returned machine regs ebp exit after ∧ exit.ebx = regs.ebx.word ∧ bios.Known after := by
  obtain ⟨loaded, hrequest, hloaded, hcount⟩ := Stage2.request_block bios lba segment offset regs
  obtain ⟨hsectors, hheads⟩ := hknown
  -- The four pushed registers lie below the entry.
  let saved : List Word := [ebp, regs.ebx.word, regs.esi.word, regs.edi.word]
  let top := Stack.pushAll saved (machine.esp, machine.stack)
  obtain ⟨htop, hwords, habove⟩ : top.1.toNat = machine.esp.toNat - 16 ∧
      WordsAt top.2 top.1.toNat saved.reverse ∧ KeepsAbove machine.esp.toNat machine.stack top.2 :=
    Stack.pushAll_keeps (machine.esp, machine.stack) saved (by change 4 * 4 ≤ machine.esp.toNat; omega)
  let called : Machine := machine.withTop (top.1, top.2.store16 (top.1 - 2) callSite)
  have hesp : called.esp.toNat = machine.esp.toNat - 16 := htop
  have hcall : KeepsAbove called.esp.toNat top.2 called.stack :=
    fun target htarget ↦ Memory.store16_of_outside (by bv_omega)
  have hkept : KeepsAbove machine.esp.toNat machine.stack called.stack :=
    habove.trans (hcall.raise (by omega))
  have hsaved : WordsAt called.stack called.esp.toNat
      [regs.edi.word, regs.esi.word, regs.ebx.word, ebp] :=
    hwords.frame (by change _ + 4 * 4 ≤ _; omega) fun target hlow _ ↦ hcall target hlow
  have hframe : machine.esp - 4 = called.esp + 12 := by bv_omega
  have hrequested : Stage2.diskReadSectorRequest machine.sectorsPerTrack machine.numHeads bios.number
      (top.2.load32 (machine.esp - 4 + 8)) ((called.stack.load32 (machine.esp - 4 + 12)).setWidth 16)
      ((called.stack.load32 (machine.esp - 4 + 16)).setWidth 16) regs = some loaded := by
    rw [load32_argument habove hinside (by decide) (by decide),
      load32_argument hkept hinside (by decide) (by decide),
      load32_argument hkept hinside (by decide) (by decide), hsectors, hheads, ← hrequest, ← hlba,
      ← hsegment, ← hoffset]
    rfl
  rw [diskReadSector, meets_bind, meets_push, meets_bind, meets_readEsp, meets_bind, meets_push,
    meets_bind, meets_push, meets_bind, meets_push, meets_bind, meets_loadStack, meets_bind,
    meets_callLbaToChs, meets_bind, meets_loadStack, meets_bind, meets_loadStack, meets_bind,
    meets_geometry]
  change Meets _ _ (readAndReturn (machine.esp - 4) (Stage2.diskReadSectorRequest machine.sectorsPerTrack
    machine.numHeads bios.number (top.2.load32 (machine.esp - 4 + 8))
    ((called.stack.load32 (machine.esp - 4 + 12)).setWidth 16)
    ((called.stack.load32 (machine.esp - 4 + 16)).setWidth 16) regs)) called _
  rw [hrequested, hframe]
  refine (readAndReturn_spec hloaded hcount hsaved (by omega)).mono fun exit after hend ↦ ?_
  obtain ⟨hattempts, hexit, hsteady, hafter⟩ := hend
  have hreturn : called.esp + 16 = machine.esp := by bv_omega
  refine ⟨hattempts, ?_, congrArg Exit.ebx hexit, ?_⟩
  · refine ⟨congrArg Exit.esi hexit, congrArg Exit.edi hexit, congrArg Exit.ebp hexit, ?_, ?_, ?_⟩
    · calc
        exit.ip = called.stack.load16 (called.esp + 16) := congrArg Exit.ip hexit
        _ = called.stack.load16 machine.esp := by rw [hreturn]
        _ = machine.stack.load16 machine.esp := hkept.load16 le_rfl (by omega)
    · rw [hafter]
      bv_omega
    · exact hkept.trans (hsteady.stack.raise (by omega))
  · exact ⟨hsteady.sectorsPerTrack_eq.trans hsectors, hsteady.numHeads_eq.trans hheads⟩

/-- The two variables take what `INT 13h` reports. -/
theorem keepGeometry_spec (carry : Bool) (regs : Registers) (machine : Machine) :
    Meets (bios.handle ds) (fun _ _ ↦ True) (keepGeometry carry regs) machine fun code after ↦
      after.toTraffic = machine.toTraffic ∧ after.stack = machine.stack ∧ after.esp = machine.esp ∧
      (carry = true ∧ code = -1 ∧ after = machine ∨
        carry = false ∧ code = 0 ∧ after.sectorsPerTrack.toNat = regs.ecx.low.toNat % 64 ∧
          after.numHeads.toNat = regs.edx.high.toNat + 1) := by
  cases carry with
  | true => exact ⟨rfl, rfl, rfl, .inl ⟨rfl, rfl, rfl⟩⟩
  | false =>
    rw [keepGeometry, if_neg (by decide), meets_bind, meets_setSectorsPerTrack, meets_bind,
      meets_setNumHeads]
    refine ⟨rfl, rfl, rfl, .inr ⟨rfl, rfl, ?_, ?_⟩⟩
    · dsimp only
      rw [Register.half_setHalf, BitVec.toNat_setWidth_of_le (by decide), toNat_sectorBits]
    · dsimp only
      rw [Register.half_setHalf, Register.half_setHalf, BitVec.toNat_add,
        BitVec.toNat_setWidth_of_le (by decide)]
      have hhigh := regs.edx.high.isLt
      change (regs.edx.high.toNat + 1) % 2 ^ 16 = _
      omega

theorem diskGetParams_spec {regs : Registers} {ebp : Word} {machine : Machine}
    (hroom : 18 ≤ machine.esp.toNat) (hinside : machine.esp.toNat ≤ 0xFFF0) :
    Meets (bios.handle ds) (fun _ _ ↦ True) (diskGetParams bios.number regs ebp) machine fun exit after ↦
      after.toTraffic = { machine.toTraffic with requests := machine.requests ++ [.parameters] } ∧
      Returned machine regs ebp exit after ∧
      (bios.paramsKnown = true ∧ exit.code = 0 ∧ bios.Known after ∨
        bios.paramsKnown = false ∧ exit.code = -1 ∧
          after.sectorsPerTrack = machine.sectorsPerTrack ∧ after.numHeads = machine.numHeads) := by
  let saved : List Word := [ebp, regs.esi.word, regs.edi.word]
  let top := Stack.pushAll saved (machine.esp, machine.stack)
  obtain ⟨htop, hwords, habove⟩ : top.1.toNat = machine.esp.toNat - 12 ∧
      WordsAt top.2 top.1.toNat saved.reverse ∧ KeepsAbove machine.esp.toNat machine.stack top.2 :=
    Stack.pushAll_keeps (machine.esp, machine.stack) saved (by change 4 * 3 ≤ machine.esp.toNat; omega)
  have hdrive : ((bios.number.setWidth 32).setWidth 8 : Byte) = bios.number := by simp
  rw [diskGetParams, meets_bind, meets_push, meets_bind, meets_readEsp, meets_bind, meets_push,
    meets_bind, meets_push, meets_bind]
  refine meets_int13 (int13_params hdrive rfl _) ?_
  dsimp only
  rw [meets_bind]
  refine (keepGeometry_spec _ _ _).mono fun code after hend ↦ ?_
  obtain ⟨htraffic, hstack, hesp, hcases⟩ := hend
  rw [meets_bind, meets_pop, meets_bind, meets_pop, meets_bind, meets_writeEsp, meets_bind, meets_pop,
    meets_bind, meets_popHalf, meets_pure]
  have hused : KeepsAbove top.1.toNat top.2 after.stack := by
    rw [hstack]
    exact bios.uses_above _ _ _
  have hpointer : after.esp = top.1 := hesp
  have hframe : machine.esp - 4 + 4 = machine.esp := BitVec.sub_add_cancel _ _
  have hkept : KeepsAbove machine.esp.toNat machine.stack after.stack :=
    habove.trans (hused.raise (by omega))
  obtain ⟨hedi, hesi, hebp, -⟩ : WordsAt after.stack top.1.toNat [regs.edi.word, regs.esi.word, ebp] :=
    hwords.frame (by change _ + 4 * 3 ≤ _; omega) fun target hlow _ ↦ hused target hlow
  refine ⟨htraffic, ⟨?_, ?_, ?_, ?_, ?_, hkept⟩, ?_⟩
  · change after.stack.load32 (after.esp + 4) = _
    rw [hpointer]
    exact Memory.load32_of_toNat hesi (by bv_omega)
  · change after.stack.load32 after.esp = _
    rw [hpointer]
    exact Memory.load32_of_toNat hedi rfl
  · exact Memory.load32_of_toNat hebp (by change _ = (machine.esp - 4).toNat; bv_omega)
  · change after.stack.load16 (machine.esp - 4 + 4) = _
    rw [hframe]
    exact hkept.load16 le_rfl (by omega)
  · exact congrArg (· + 2) hframe
  · rcases hcases with ⟨hcarry, rfl, rfl⟩ | ⟨hcarry, rfl, hsectors, hheads⟩
    · have hparams : bios.paramsKnown = false := by simpa using hcarry
      exact .inr ⟨hparams, rfl, rfl, rfl⟩
    · have hparams : bios.paramsKnown = true := by simpa using hcarry
      rw [hparams, if_pos rfl] at hsectors hheads
      refine .inl ⟨hparams, rfl, BitVec.eq_of_toNat_eq ?_, BitVec.eq_of_toNat_eq ?_⟩
      · exact hsectors.trans (bios.reports_sectors _)
      · exact hheads.trans (bios.reports_heads _)

/-- The C code goes on behind its `calll`. -/
theorem meets_returnTo {before after : Machine} {regs : Registers} {ebp returnAddress : Word} {exit : Exit}
    {post : ℤ → Machine → Prop} (h : Returned before regs ebp exit after)
    (haddress : before.stack.load32 before.esp = returnAddress) (hpost : post exit.code after) :
    Meets (bios.handle ds) (fun _ _ ↦ True) (returnTo returnAddress exit) after post := by
  have hip : exit.ip = returnAddress.setWidth 16 := by
    rw [h.ip_eq, Memory.load16_eq_setWidth, haddress]
  rw [returnTo, if_pos hip]
  exact hpost

theorem callDiskGetParams_spec (machine : Machine) :
    Meets (bios.handle ds) (fun _ _ ↦ True) (callDiskGetParams bios.number) machine fun code after ↦
      after.toTraffic = { machine.toTraffic with requests := machine.requests ++ [.parameters] } ∧
      (bios.paramsKnown = true ∧ code = 0 ∧ bios.Known after ∨
        bios.paramsKnown = false ∧ code = -1 ∧
          after.sectorsPerTrack = machine.sectorsPerTrack ∧ after.numHeads = machine.numHeads) := by
  let caller := bios.caller machine.requests.length
  have hroom := caller.room
  have hinside := caller.esp_le
  have hesp : (caller.esp - 4).toNat = caller.esp.toNat - 4 := by bv_omega
  rw [callDiskGetParams, meets_bind, meets_entered, meets_bind, meets_push, meets_bind]
  refine (diskGetParams_spec ?_ ?_).mono fun exit after hend ↦ ?_
  · change 18 ≤ (caller.esp - 4).toNat
    omega
  · change (caller.esp - 4).toNat ≤ 0xFFF0
    omega
  · obtain ⟨htraffic, hreturned, hcases⟩ := hend
    exact meets_returnTo hreturned (Memory.load32_store32 ..) ⟨htraffic, hcases⟩

theorem callDiskReadSector_spec (callSite : BitVec 16) (lba : Word) (segment offset : BitVec 16)
    {machine : Machine} (hknown : bios.Known machine) :
    Meets (bios.handle ds) (fun _ _ ↦ True)
      (callDiskReadSector bios.number callSite lba segment offset) machine fun code after ↦
        Attempts bios (bios.addressOf lba) (linearAddress segment offset) 3 machine.toTraffic code
          after.toTraffic ∧ bios.Known after := by
  let caller := bios.caller machine.requests.length
  have hroom := caller.room
  have hinside := caller.esp_le
  let values : List Word := [offset.setWidth 32, segment.setWidth 32, lba, caller.returnAddress]
  let top := Stack.pushAll values (caller.esp, caller.stack)
  obtain ⟨htop, hwords, -⟩ : top.1.toNat = caller.esp.toNat - 16 ∧
      WordsAt top.2 top.1.toNat values.reverse ∧ KeepsAbove caller.esp.toNat caller.stack top.2 :=
    Stack.pushAll_keeps (caller.esp, caller.stack) values (by change 4 * 4 ≤ caller.esp.toNat; omega)
  obtain ⟨hreturn, hlba, hsegment, hoffset, -⟩ := hwords
  have hhalf (value : BitVec 16) : (value.setWidth 32).setWidth 16 = value := by simp
  rw [callDiskReadSector, meets_bind, meets_entered, meets_bind, meets_push, meets_bind, meets_push,
    meets_bind, meets_push, meets_bind, meets_push, meets_bind]
  change Meets _ _ (diskReadSector bios.number callSite caller.regs caller.ebp) (machine.withTop top) _
  refine (@diskReadSector_spec bios ds callSite caller.regs caller.ebp lba segment offset
    (machine.withTop top) hknown ?_ ?_ ?_ ?_ ?_).mono fun exit after hend ↦ ?_
  · change 18 ≤ top.1.toNat
    omega
  · change top.1.toNat ≤ 0xFFF0
    omega
  · exact Memory.load32_of_toNat hlba (by change _ = (top.1 + 4).toNat; bv_omega)
  · rw [← hhalf segment]
    exact congrArg _ (Memory.load32_of_toNat hsegment (by change _ = (top.1 + 8).toNat; bv_omega))
  · rw [← hhalf offset]
    exact congrArg _ (Memory.load32_of_toNat hoffset (by change _ = (top.1 + 12).toNat; bv_omega))
  · obtain ⟨hattempts, hreturned, -, hafter⟩ := hend
    exact meets_returnTo hreturned (Memory.load32_of_toNat hreturn rfl) ⟨hattempts, hafter⟩

end Loop

/-- A floppy disk on which every sector is filled with its number, and every first and second attempt
fails. -/
def slowFloppy : Bios where
  number := 0
  geometry := floppy
  sector block _ := .ofNat 8 block
  paramsKnown := true
  succeeds attempt _ := attempt % 3 == 2
  leaves _ _ memory := memory
  leaves_outside _ _ _ _ _ := rfl
  reports _ := ⟨.ofWord 0, .ofWord 0, .ofWord 18, .ofWord 0x0100, .ofWord 0, .ofWord 0, 0⟩
  reports_sectors _ := rfl
  reports_heads _ := rfl
  status _ := 0
  uses _ _ stack := stack
  uses_above _ _ stack := .refl _ stack
  caller _ := ⟨⟨.ofWord 0, .ofWord 0, .ofWord 0, .ofWord 0, .ofWord 0, .ofWord 0, 0⟩, 0, 0x0100,
    fun _ ↦ 0, 0x3FF0, by decide, by decide⟩

end NeilOS.Disk
