import NeilOS.Arch.Idt
import NeilOS.Context.Frames

/-!
# From a vector to the handler and back

The processor looks up the gate of a vector, checks it and the segment it refers to, and pushes what an
interrupt at the same privilege level pushes. The stub of the vector completes the frame, with or without
a dummy error code, and `isr_common` pops one frame of a fixed size. Whether the interrupted code goes on
where it was depends on the processor and the stub agreeing on the error code.
-/

namespace NeilOS.Arch

open Foundation Context

/-! ## The processor -/

/-- What raises a vector; an exception may come with an error code. -/
structure Cause where
  number : Fin 256
  code : Option Word
  external : Bool

inductive Arrival where
  | entered (cpu : Cpu) (memory : Memory)
  | fault (number : Fin 256) (code : Word)

/-- The error code for a vector of the interrupt descriptor table. -/
def vectorCode (cause : Cause) : Word :=
  8 * .ofNat 32 cause.number.val + 2 + if cause.external then 1 else 0

/-- The flags that an interrupt gate clears: `TF`, `IF`, `NT`, `RF` and `VM`. -/
def gateMask : Word := 0x34300

/-- The pushes of the processor. -/
def pushed (cause : Cause) (cpu : Cpu) (memory : Memory) : Stack.Top :=
  Stack.pushAll ([cpu.eflags, cpu.cs.setWidth 32, cpu.eip] ++ cause.code.toList) (cpu.esp, memory)

/-- The registers when the first instruction behind a gate is fetched. -/
def inside (gate : Gate) (cause : Cause) (cpu : Cpu) (memory : Memory) : Cpu :=
  { cpu with
    esp := (pushed cause cpu memory).1
    eip := gate.offset
    cs := gate.selector
    eflags := cpu.eflags &&& ~~~gateMask }

/-- Entry through an interrupt gate, for code at privilege level 0; trap and task gates are left out, and so
is the accessed bit that the processor sets in the descriptor of the code segment. -/
def deliver (idtr gdtr : TableRegister) (cause : Cause) (cpu : Cpu) (memory : Memory) : Arrival :=
  if idtr.limit.toNat < 8 * cause.number.val + 7 then .fault (vector 13) (vectorCode cause)
  else
    let gate := Gate.decode (load64 memory (idtr.base + 8 * .ofNat 32 cause.number.val))
    if gate.attributes &&& 0x1F ≠ 0x0E then .fault (vector 13) (vectorCode cause)
    else if gate.attributes.getLsbD 7 = false then .fault (vector 11) (vectorCode cause)
    else
      -- The selector without its privilege level is an offset into the table.
      let offset := gate.selector &&& 0xFFF8
      if offset = 0 ∨ gdtr.limit.toNat < offset.toNat + 7 then .fault (vector 13) (offset.setWidth 32)
      else
        let descriptor := Descriptor.decode (load64 memory (gdtr.base + offset.setWidth 32))
        -- A code segment of level 0, which the privilege level in the access byte says.
        if descriptor.access &&& 0x78 ≠ 0x18 then .fault (vector 13) (offset.setWidth 32)
        else if descriptor.access.getLsbD 7 = false then .fault (vector 11) (offset.setWidth 32)
        else .entered (inside gate cause cpu memory) (pushed cause cpu memory).2

/-- A fault on the way is raised in its turn; a second one is left out. -/
def raise (idtr gdtr : TableRegister) (cause : Cause) (cpu : Cpu) (memory : Memory) :
    Option (Cause × Cpu × Memory) :=
  match deliver idtr gdtr cause cpu memory with
  | .entered inside after => some (cause, inside, after)
  | .fault number code =>
      match deliver idtr gdtr ⟨number, some code, cause.external⟩ cpu memory with
      | .entered inside after => some (⟨number, some code, cause.external⟩, inside, after)
      | .fault _ _ => none

/-! ## The stubs -/

/-- The vectors with an `ISR_ERROR` stub; all the others have an `ISR_NOERROR` stub. -/
def errorStub (number : Fin 256) : Bool := [8, 10, 11, 12, 13, 14, 17, 21, 30].contains number.val

/-- The pushes of a stub. -/
def stubWords (number : Fin 256) : List Word :=
  if errorStub number then [.ofNat 32 number.val] else [0, .ofNat 32 number.val]

/-- The stub and `pusha`; the stack pointer is then the address of `regs`. -/
def called (number : Fin 256) (cpu : Cpu) (memory : Memory) : Stack.Top :=
  let top := Stack.pushAll (stubWords number) (cpu.esp, memory)
  Stack.pushAll [cpu.eax, cpu.ecx, cpu.edx, cpu.ebx, top.1, cpu.ebp, cpu.esi, cpu.edi] top

/-! ## Where a vector leads -/

/-- The vectors that `idt_init` leaves empty lead to the general protection fault. -/
def served (cause : Cause) : Cause :=
  if installed.contains cause.number then cause
  else ⟨vector 13, some (vectorCode cause), cause.external⟩

section Deliver

variable {isr : Fin 256 → Word} {idtr gdtr : TableRegister} {memory : Memory}

theorem deliver_installed (h : Loaded isr idtr gdtr memory) {cause : Cause}
    (hinstalled : installed.contains cause.number = true) (cpu : Cpu) :
    deliver idtr gdtr cause cpu memory =
      .entered (inside ⟨isr cause.number, 0x08, 0x8E⟩ cause cpu memory) (pushed cause cpu memory).2 := by
  obtain ⟨before, hidt⟩ := h.idt
  have hlt := cause.number.isLt
  have hlimit : ¬ idtr.limit.toNat < 8 * cause.number.val + 7 := by
    have hvalue : idtr.limit.toNat = 2047 := by
      rw [h.idtLimit]
      rfl
    omega
  have hgate : Gate.decode (load64 memory (idtr.base + 8 * .ofNat 32 cause.number.val)) =
      ⟨isr cause.number, 0x08, 0x8E⟩ := by
    rw [hidt, idtInit_apply, if_pos hinstalled, decode_gateOf]
  obtain ⟨haccess, haccessPresent⟩ := access_kernelCode (h.gdt 1)
  change (Descriptor.decode (load64 memory (gdtr.base + 8))).access &&& 0x78 = 0x18 at haccess
  change (Descriptor.decode (load64 memory (gdtr.base + 8))).access.getLsbD 7 = true at haccessPresent
  have hgdtLimit : gdtr.limit.toNat = 39 := by
    rw [h.gdtLimit]
    rfl
  have htype : ¬ (0x8E : Byte) &&& 0x1F ≠ 0x0E := by decide
  have hpresent : ¬ (0x8E : Byte).getLsbD 7 = false := by decide
  have hselector : ¬ ((0x08 : BitVec 16) &&& 0xFFF8 = 0 ∨
      gdtr.limit.toNat < ((0x08 : BitVec 16) &&& 0xFFF8).toNat + 7) := by
    rw [hgdtLimit]
    decide
  have hoffset : ((0x08 : BitVec 16) &&& 0xFFF8).setWidth 32 = (8 : Word) := by decide
  unfold deliver
  rw [if_neg hlimit, hgate]
  dsimp only
  rw [if_neg htype, if_neg hpresent, if_neg hselector, hoffset, if_neg (not_not_intro haccess),
    haccessPresent, if_neg (by decide)]

theorem deliver_empty (h : Loaded isr idtr gdtr memory) {cause : Cause}
    (hempty : ¬ installed.contains cause.number = true) (cpu : Cpu) :
    deliver idtr gdtr cause cpu memory = .fault (vector 13) (vectorCode cause) := by
  obtain ⟨before, hidt⟩ := h.idt
  have hgate : (Gate.decode (load64 memory (idtr.base + 8 * .ofNat 32 cause.number.val))).attributes = 0 := by
    rw [hidt, idtInit_apply, if_neg hempty, decode_quad]
    rfl
  have htype : (Gate.decode (load64 memory (idtr.base + 8 * .ofNat 32 cause.number.val))).attributes &&&
      0x1F ≠ 0x0E := by
    rw [hgate]
    decide
  unfold deliver
  dsimp only
  rw [if_pos htype, ite_self]

/-- Every vector leads to a stub that `idt_init` installed, and with interrupts off. -/
theorem raise_eq (h : Loaded isr idtr gdtr memory) (cause : Cause) (cpu : Cpu) :
    raise idtr gdtr cause cpu memory =
      some (served cause, inside ⟨isr (served cause).number, 0x08, 0x8E⟩ (served cause) cpu memory,
        (pushed (served cause) cpu memory).2) := by
  by_cases hinstalled : installed.contains cause.number = true
  · have hserved : served cause = cause := if_pos hinstalled
    rw [raise, deliver_installed h hinstalled, hserved]
  · have hserved : served cause = ⟨vector 13, some (vectorCode cause), cause.external⟩ := if_neg hinstalled
    have hprotection :
        installed.contains (⟨vector 13, some (vectorCode cause), cause.external⟩ : Cause).number = true :=
      (contains_installed (vector 13)).mpr (.inl (by decide))
    rw [raise, deliver_empty h hinstalled, hserved]
    dsimp only
    rw [deliver_installed h hprotection]

end Deliver

/-! ## The frame -/

section Frame

/-- The words from the interrupted stack pointer to `regs`, in the order of the pushes. -/
def pushedWords (cause : Cause) (cpu : Cpu) (saved : Word) : List Word :=
  [cpu.eflags, cpu.cs.setWidth 32, cpu.eip] ++ cause.code.toList ++ stubWords cause.number ++
    [cpu.eax, cpu.ecx, cpu.edx, cpu.ebx, saved, cpu.ebp, cpu.esi, cpu.edi]

theorem pushAll_append (first second : List Word) (top : Stack.Top) :
    Stack.pushAll (first ++ second) top = Stack.pushAll second (Stack.pushAll first top) :=
  List.foldl_append

/-- The processor's pushes, the stub's and those of `pusha` follow each other. -/
theorem called_eq (gate : Gate) (cause : Cause) (cpu : Cpu) (memory : Memory) :
    ∃ saved, called cause.number (inside gate cause cpu memory) (pushed cause cpu memory).2 =
      Stack.pushAll (pushedWords cause cpu saved) (cpu.esp, memory) := by
  refine ⟨(Stack.pushAll (stubWords cause.number) (pushed cause cpu memory)).1, ?_⟩
  rw [pushedWords, pushAll_append, pushAll_append]
  rfl

/-- The frame as the handler finds it. -/
theorem reverse_pushedWords (cause : Cause) (cpu : Cpu) (saved : Word) :
    (pushedWords cause cpu saved).reverse =
      cpu.edi :: cpu.esi :: cpu.ebp :: saved :: cpu.ebx :: cpu.edx :: cpu.ecx :: cpu.eax ::
        .ofNat 32 cause.number.val :: ((if errorStub cause.number then [] else [0]) ++
          cause.code.toList ++ [cpu.eip, cpu.cs.setWidth 32, cpu.eflags]) := by
  unfold pushedWords stubWords
  cases cause.code with
  | none => split_ifs <;> rfl
  | some code => split_ifs <;> rfl

theorem length_pushedWords (cause : Cause) (cpu : Cpu) (saved : Word) :
    (pushedWords cause cpu saved).length =
      11 + (if cause.code.isSome then 1 else 0) + if errorStub cause.number then 1 else 2 := by
  unfold pushedWords stubWords
  cases cause.code with
  | none => cases errorStub cause.number <;> rfl
  | some code => cases errorStub cause.number <;> rfl

variable {cause : Cause} {cpu : Cpu} {saved : Word} {top : Stack.Top} {memory after : Memory}

/-- `isr_common` pops thirteen words, so the interrupted code goes on as it was just if so many were
pushed. -/
theorem leave_eq_iff (hroom : 56 ≤ cpu.esp.toNat)
    (hpushed : Stack.Pushed memory cpu.esp.toNat (pushedWords cause cpu saved) top)
    (hkept : ∀ target : Word, top.1.toNat ≤ target.toNat → target.toNat < cpu.esp.toNat →
      after target = top.2 target) :
    after.load32 (top.1 + 32) = .ofNat 32 cause.number.val ∧
      (leave top.1 after = cpu ↔ cause.code.isSome = errorStub cause.number) := by
  have hlength := length_pushedWords cause cpu saved
  have hle : (pushedWords cause cpu saved).length ≤ 14 := by
    rw [hlength]
    split_ifs <;> decide
  have hlt := cpu.esp.isLt
  have hpointer : top.1.toNat = cpu.esp.toNat - 4 * (pushedWords cause cpu saved).length := by
    rw [hpushed.pointer_eq]
    exact Word.toNat_ofNat_of_lt (by omega)
  have hwords : WordsAt after top.1.toNat (pushedWords cause cpu saved).reverse := by
    have hframe := hpushed.words
    rw [← hpointer] at hframe
    refine hframe.frame ?_ fun target hlow hhigh ↦ ?_
    · rw [List.length_reverse]
      omega
    · rw [List.length_reverse] at hhigh
      exact hkept target hlow (by omega)
  rw [reverse_pushedWords] at hwords
  have hnumber : after.load32 (top.1 + 32) = .ofNat 32 cause.number.val := by
    simp only [WordsAt, Nat.add_assoc, Nat.reduceAdd, ofNat_toNat_add] at hwords
    exact hwords.2.2.2.2.2.2.2.2.1
  have hesp : (top.1 + 52).toNat = (top.1.toNat + 52) % 2 ^ 32 := BitVec.toNat_add top.1 52
  refine ⟨hnumber, fun hleave ↦ ?_, fun hagree ↦ ?_⟩
  · have hsame : (top.1 + 52).toNat = cpu.esp.toNat := congrArg (fun cpu ↦ cpu.esp.toNat) hleave
    -- Twelve words if only the stub counts on a code, fourteen if only the processor pushes one.
    cases hcode : cause.code.isSome <;> cases hstub : errorStub cause.number
    · rfl
    · rw [hcode, hstub] at hlength
      change _ = 12 at hlength
      omega
    · rw [hcode, hstub] at hlength
      change _ = 14 at hlength
      omega
    · rfl
  · obtain ⟨word, hword⟩ : ∃ word : Word,
        (if errorStub cause.number then [] else [0]) ++ cause.code.toList = [word] := by
      rw [← hagree]
      cases cause.code with
      | none => exact ⟨0, rfl⟩
      | some code => exact ⟨code, rfl⟩
    rw [hword] at hwords
    obtain ⟨hleave, -⟩ := leave_of_words hwords
    have hthirteen : (pushedWords cause cpu saved).length = 13 := by
      rw [hlength, ← hagree]
      cases cause.code <;> rfl
    have hpointer' : top.1 + 52 = cpu.esp := by
      apply BitVec.eq_of_toNat_eq
      omega
    have hcs : (cpu.cs.setWidth 32).setWidth 16 = cpu.cs := by simp
    rw [hleave, hpointer', hcs]

end Frame

theorem called_eq_enter (gate : Gate) {cause : Cause} (cpu : Cpu) (memory : Memory)
    (hcode : cause.code = none) (hstub : errorStub cause.number = false) :
    called cause.number (inside gate cause cpu memory) (pushed cause cpu memory).2 =
      enter (.ofNat 32 cause.number.val) cpu memory := by
  have hwords : stubWords cause.number = [0, .ofNat 32 cause.number.val] := by
    rw [stubWords, hstub]
    rfl
  rw [called, hwords, inside, pushed, hcode]
  rfl

/-- Whatever vector is raised, the handler is called with interrupts off and with the number of the vector,
or of the general protection fault if the vector has no gate. The handler's return resumes the interrupted
code exactly if the processor pushed an error code just for the vectors with an `ISR_ERROR` stub. Without
one the entry is the `enter` of the context switch. -/
theorem interrupts_resume_iff {isr : Fin 256 → Word} {idtr gdtr : TableRegister} {memory : Memory}
    (h : Loaded isr idtr gdtr memory) (cause : Cause) {cpu : Cpu} (hroom : 56 ≤ cpu.esp.toNat) :
    ∃ entered after, raise idtr gdtr cause cpu memory = some (served cause, entered, after) ∧
      entered.eip = isr (served cause).number ∧ entered.cs = 0x08 ∧ entered.eflags.getLsbD 9 = false ∧
      ((called (served cause).number entered after).2.load32
          ((called (served cause).number entered after).1 + 32) = .ofNat 32 (served cause).number.val) ∧
      (∀ last : Memory, (∀ target : Word,
          (called (served cause).number entered after).1.toNat ≤ target.toNat →
          target.toNat < cpu.esp.toNat →
            last target = (called (served cause).number entered after).2 target) →
        (leave (called (served cause).number entered after).1 last = cpu ↔
          (served cause).code.isSome = errorStub (served cause).number)) ∧
      ((served cause).code = none → errorStub (served cause).number = false →
        called (served cause).number entered after =
          enter (.ofNat 32 (served cause).number.val) cpu memory) := by
  let gate : Gate := ⟨isr (served cause).number, 0x08, 0x8E⟩
  obtain ⟨saved, hcalled⟩ := called_eq gate (served cause) cpu memory
  have hpushed : Stack.Pushed memory cpu.esp.toNat (pushedWords (served cause) cpu saved)
      (called (served cause).number (inside gate (served cause) cpu memory)
        (pushed (served cause) cpu memory).2) := by
    have hlength := length_pushedWords (served cause) cpu saved
    have hlong : 4 * (pushedWords (served cause) cpu saved).length ≤ cpu.esp.toNat := by
      rw [hlength]
      split_ifs <;> omega
    have hspec := Stack.pushAll_spec memory (pushedWords (served cause) cpu saved) hlong cpu.esp.isLt
    rwa [BitVec.ofNat_toNat, BitVec.setWidth_eq, ← hcalled] at hspec
  refine ⟨_, _, raise_eq h cause cpu, rfl, rfl, ?_, ?_, ?_, ?_⟩
  · have hmask : (~~~gateMask).getLsbD 9 = false := by decide
    change (cpu.eflags &&& ~~~gateMask).getLsbD 9 = false
    rw [BitVec.getLsbD_and, hmask, Bool.and_false]
  · exact (leave_eq_iff hroom hpushed fun _ _ _ ↦ rfl).1
  · exact fun last hlast ↦ (leave_eq_iff hroom hpushed hlast).2
  · exact called_eq_enter gate cpu memory

def bootCpu : Cpu := ⟨0, 0, 0, 0, 0x9D000, 0, 0, 0, 0xC000, 0x08, 0x202⟩

/-- A software interrupt with a number that has no gate is a general protection fault. -/
theorem interrupts_resume_iff_no_gate : ∃ entered after,
    raise ⟨2047, 0⟩ ⟨39, 2048⟩ ⟨vector 200, none, false⟩ bootCpu (tablesAt (fun _ ↦ 0x9000) 0 2048) =
        some (⟨vector 13, some 1602, false⟩, entered, after) ∧
      leave (called (vector 13) entered after).1 (called (vector 13) entered after).2 = bootCpu := by
  have hroom : 56 ≤ bootCpu.esp.toNat := by decide
  have hloaded : Loaded (fun _ ↦ 0x9000) ⟨2047, 0⟩ ⟨39, 2048⟩ (tablesAt (fun _ ↦ 0x9000) 0 2048) :=
    loaded_tablesAt _ (by decide) (by decide)
  have hempty : ¬ installed.contains (vector 200) = true := by
    rw [contains_installed]
    decide
  have hserved : served ⟨vector 200, none, false⟩ = ⟨vector 13, some 1602, false⟩ := if_neg hempty
  obtain ⟨entered, after, hraise, -, -, -, -, hresumes, -⟩ :=
    interrupts_resume_iff hloaded ⟨vector 200, none, false⟩ hroom
  rw [hserved] at hraise hresumes
  exact ⟨entered, after, hraise, (hresumes _ fun _ _ _ ↦ rfl).mpr rfl⟩

end NeilOS.Arch
