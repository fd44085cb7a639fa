import NeilOS.Foundation.Memory
import NeilOS.Foundation.Program

/-!
# Programs over byte-addressed memory

The operations are byte and word loads and stores. `StoresWithin` is the guarantee used for
footprints: a program may read anything but stores only to allowed bytes. Proving a program
against it bounds the program's writes, not merely the change it leaves behind.
-/

namespace Foundation

inductive MemoryOp where
  | load8 (address : Word)
  | load32 (address : Word)
  | store8 (address : Word) (value : Byte)
  | store32 (address value : Word)
deriving DecidableEq

namespace MemoryOp

def Answer : MemoryOp → Type
  | load8 _ => Byte
  | load32 _ => Word
  | store8 _ _ => Unit
  | store32 _ _ => Unit

def handle : Handler MemoryOp Answer Memory
  | load8 address, memory => some (memory address, memory)
  | load32 address, memory => some (memory.load32 address, memory)
  | store8 address value, memory => some ((), memory.store8 address value)
  | store32 address value, memory => some ((), memory.store32 address value)

/-- The bytes an operation stores to. -/
def Writes : MemoryOp → Word → Prop
  | load8 _, _ => False
  | load32 _, _ => False
  | store8 address _, target => target = address
  | store32 address _, target => (target - address).toNat < 4

def StoresWithin (allowed : Word → Prop) (_ : Memory) (op : MemoryOp) : Prop :=
  ∀ target, op.Writes target → allowed target

end MemoryOp

abbrev MemoryProgram := Program MemoryOp MemoryOp.Answer

namespace MemoryProgram

open MemoryOp Program

def read8 (address : Word) : MemoryProgram Byte := perform (.load8 address) result

def read32 (address : Word) : MemoryProgram Word := perform (.load32 address) result

def write8 (address : Word) (value : Byte) : MemoryProgram Unit := perform (.store8 address value) result

def write32 (address value : Word) : MemoryProgram Unit := perform (.store32 address value) result

variable {allowed : Word → Prop} {memory : Memory}

@[simp] theorem meets_read8 (address : Word) (post : Byte → Memory → Prop) :
    Meets handle (StoresWithin allowed) (read8 address) memory post ↔
      post (memory address) memory := by
  unfold read8
  simp [Meets, handle, StoresWithin, Writes]

@[simp] theorem meets_read32 (address : Word) (post : Word → Memory → Prop) :
    Meets handle (StoresWithin allowed) (read32 address) memory post ↔
      post (memory.load32 address) memory := by
  unfold read32
  simp [Meets, handle, StoresWithin, Writes]

@[simp] theorem meets_write8 (address : Word) (value : Byte) (post : Unit → Memory → Prop) :
    Meets handle (StoresWithin allowed) (write8 address value) memory post ↔
      allowed address ∧ post () (memory.store8 address value) := by
  unfold write8
  simp [Meets, handle, StoresWithin, Writes]

@[simp] theorem meets_write32 (address value : Word) (post : Unit → Memory → Prop) :
    Meets handle (StoresWithin allowed) (write32 address value) memory post ↔
      (∀ target : Word, (target - address).toNat < 4 → allowed target) ∧
        post () (memory.store32 address value) := by
  unfold write32
  simp [Meets, handle, StoresWithin, Writes]

theorem allow_stores {α : Type} {larger : Word → Prop} {program : MemoryProgram α}
    {post : α → Memory → Prop} (h : Meets handle (StoresWithin allowed) program memory post)
    (hlarger : ∀ target, allowed target → larger target) :
    Meets handle (StoresWithin larger) program memory post :=
  h.allow fun _ _ hallowed target hwrites ↦ hlarger target (hallowed target hwrites)

/-- What a program may not store to, it leaves unchanged. -/
theorem frame {α : Type} {program : MemoryProgram α} {post : α → Memory → Prop}
    (h : Meets handle (StoresWithin allowed) program memory post) :
    Meets handle (StoresWithin allowed) program memory fun value after ↦
      post value after ∧ ∀ target, ¬ allowed target → after target = memory target := by
  induction program generalizing memory with
  | result value => exact ⟨h, fun _ _ ↦ rfl⟩
  | diverge => exact h
  | perform op rest ih =>
    obtain ⟨hallowed, reply, hreply, hrest⟩ := h
    refine ⟨hallowed, reply, hreply, (ih reply.1 hrest).mono fun value after hafter ↦ ?_⟩
    refine ⟨hafter.1, fun target htarget ↦ (hafter.2 target htarget).trans ?_⟩
    have hunwritten : ¬ op.Writes target := fun hwrites ↦ htarget (hallowed target hwrites)
    cases op with
    | load8 address => rw [← Option.some.inj hreply]
    | load32 address => rw [← Option.some.inj hreply]
    | store8 address byte =>
      rw [← Option.some.inj hreply]
      exact Memory.store8_of_ne hunwritten
    | store32 address word =>
      rw [← Option.some.inj hreply]
      exact Memory.store32_of_outside (Nat.le_of_not_lt hunwritten)

end MemoryProgram

end Foundation
