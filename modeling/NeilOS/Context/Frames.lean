import NeilOS.Context.Model

/-!
# Frames on the stacks

The frame that an interrupt pushes and the one that `task_create_context` builds by hand have the
same layout, which `leave` pops. `Frame` says that such a frame lies on a stack at a pointer; it
depends on the bytes of that stack only.
-/

namespace NeilOS.Context

open Foundation Scheduler

/-- The words that an interrupt pushes, in order. -/
def frameWords (number : Word) (cpu : Cpu) : List Word :=
  [cpu.eflags, cpu.cs.setWidth 32, cpu.eip, 0, number, cpu.eax, cpu.ecx, cpu.edx, cpu.ebx,
    cpu.esp - 20, cpu.ebp, cpu.esi, cpu.edi]

theorem enter_eq_pushAll (number : Word) (cpu : Cpu) (memory : Memory) :
    enter number cpu memory = Stack.pushAll (frameWords number cpu) (cpu.esp, memory) := by
  have hpointer : cpu.esp - 4 - 4 - 4 - 4 - 4 = cpu.esp - 20 := by bv_omega
  simp only [enter, frameWords, Stack.pushAll, Stack.push, List.foldl, hpointer]

theorem enter_spec (number : Word) {cpu : Cpu} (memory : Memory) (hroom : 52 ≤ cpu.esp.toNat) :
    Stack.Pushed memory cpu.esp.toNat (frameWords number cpu) (enter number cpu memory) := by
  have hpushed := Stack.pushAll_spec memory (frameWords number cpu) hroom cpu.esp.isLt
  rwa [BitVec.ofNat_toNat, BitVec.setWidth_eq, ← enter_eq_pushAll] at hpushed

theorem ofNat_toNat_add (pointer : Word) (offset : ℕ) :
    BitVec.ofNat 32 (pointer.toNat + offset) = pointer + BitVec.ofNat 32 offset := by
  rw [BitVec.ofNat_add, BitVec.ofNat_toNat, BitVec.setWidth_eq]

/-- The order in which the words of a frame are popped. -/
theorem leave_of_words {memory : Memory} {pointer edi esi ebp skipped ebx edx ecx eax number code eip cs
    eflags : Word} {rest : List Word} (h : WordsAt memory pointer.toNat
      (edi :: esi :: ebp :: skipped :: ebx :: edx :: ecx :: eax :: number :: code :: eip :: cs ::
        eflags :: rest)) :
    leave pointer memory = ⟨eax, ecx, edx, ebx, pointer + 52, ebp, esi, edi, eip, cs.setWidth 16, eflags⟩ ∧
      memory.load32 (pointer + 32) = number ∧ WordsAt memory (pointer.toNat + 52) rest := by
  simp only [WordsAt, Nat.add_assoc, Nat.reduceAdd, ofNat_toNat_add] at h
  obtain ⟨hedi, hesi, hebp, -, hebx, hedx, hecx, heax, hnumber, -, heip, hcs, heflags, hrest⟩ := h
  rw [BitVec.ofNat_toNat, BitVec.setWidth_eq] at hedi
  refine ⟨?_, hnumber, hrest⟩
  ext1
  · exact heax
  · exact hecx
  · exact hedx
  · exact hebx
  · rfl
  · exact hebp
  · exact hesi
  · exact hedi
  · exact heip
  · exact congrArg (BitVec.setWidth 16) hcs
  · exact heflags

/-! ## Frames that resume a task -/

/-- The words, from the pointer upwards, that make a task continue as it should. -/
def Encodes (image : TaskImage) (pointer : Word) (words : List Word) : Resumption → Prop
  | .interrupted cpu => ∃ number, words = (frameWords number cpu).reverse ∧ cpu.esp = pointer + 52
  | .fresh entry => words = (contextWords image entry).reverse

/-- A frame on a stack. -/
def Frame (image : TaskImage) (memory : Memory) (stack : Region) (pointer : Word) (resume : Resumption) :
    Prop :=
  ∃ words, Encodes image pointer words resume ∧ stack.low ≤ pointer.toNat ∧
    pointer.toNat + 4 * words.length ≤ stack.high ∧ WordsAt memory pointer.toNat words

variable {image : TaskImage} {before after : Memory} {stack : Region} {pointer : Word} {resume : Resumption}

theorem Frame.keep (h : Frame image before stack pointer resume) (hstack : stack.high ≤ 2 ^ 32)
    (hsame : ∀ target, stack.Contains target → after target = before target) :
    Frame image after stack pointer resume := by
  obtain ⟨words, hencodes, hlow, hhigh, hwords⟩ := h
  refine ⟨words, hencodes, hlow, hhigh, hwords.frame (by omega) fun target hge hlt ↦ ?_⟩
  exact hsame target ⟨by omega, by omega⟩

theorem Frame.resumes (h : Frame image before stack pointer resume) :
    Resumes image before (leave pointer before) resume := by
  obtain ⟨words, hencodes, -, -, hwords⟩ := h
  cases resume with
  | interrupted cpu =>
    obtain ⟨number, rfl, hesp⟩ := hencodes
    obtain ⟨hleave, -⟩ := leave_of_words hwords
    change leave pointer before = cpu
    rw [hleave, ← hesp]
    have hcs : (cpu.cs.setWidth 32).setWidth 16 = cpu.cs := by simp
    rw [hcs]
  | fresh entry =>
    cases hencodes
    obtain ⟨hleave, -, hexit, -⟩ := leave_of_words hwords
    rw [ofNat_toNat_add] at hexit
    rw [Resumes, ret, hleave]
    have hinterruptFlag : (0x202 : Word).getLsbD 9 = true := by decide
    exact ⟨rfl, rfl, hinterruptFlag, rfl, rfl, rfl, rfl, rfl, rfl, rfl, hexit, hexit⟩

/-- The hand-built context of a new task is a frame. -/
theorem frame_of_pushed {entry : Word} {top : Stack.Top}
    (h : Stack.Pushed before stack.high (contextWords image entry) top)
    (hroom : stack.low + 56 ≤ stack.high) (hbound : stack.high < 2 ^ 32) :
    Frame image top.2 stack top.1 (.fresh entry) := by
  have hlength : (contextWords image entry).length = 14 := rfl
  have hpointer : top.1.toNat = stack.high - 56 := by
    rw [h.pointer_eq, hlength, BitVec.toNat_ofNat]
    omega
  have hwords := h.words
  rw [hlength, ← hpointer] at hwords
  refine ⟨_, rfl, by omega, ?_, hwords⟩
  rw [List.length_reverse, hlength]
  omega

end NeilOS.Context
