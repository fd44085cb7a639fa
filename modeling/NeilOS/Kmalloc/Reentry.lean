import NeilOS.Foundation.Interference
import NeilOS.Kmalloc.Client

/-!
# `kmalloc` and preemption

`kmalloc` has no critical section. Between the test of a block and the store that takes it, a timer tick
can give the processor to another task that calls `kmalloc` as well, finds the same block free and takes
it; the first call then takes it a second time. So the heap is safe only if its calls do not overlap,
which is how `Client.lean` runs them.
-/

namespace NeilOS.Kmalloc

open Foundation Foundation.Program MemoryOp MemoryProgram

/-- Another task completes a call of `kmalloc`; the log has what it got. -/
def OtherCall (head size : Word) (before after : Memory × List Word) : Prop :=
  ∃ result, exec handle (kmalloc head size) before.1 = some (result, after.1) ∧ after.2 = result :: before.2

/-- Whatever the header says by then, the block is handed out. -/
theorem kmallocTake_returns (ptr size : Word) (memory : Memory) :
    Meets handle (StoresWithin fun _ ↦ True) (kmallocTake ptr size) memory fun value _ ↦
      value = ptr + headerSize := by
  simp only [kmallocTake, readSize, readNext, writeSize, writeFree, writeNext, meets_bind, meets_read32]
  split_ifs <;>
    simp only [meets_bind, meets_read32, meets_write32, meets_write8, meets_pure, implies_true, and_self]

variable {head size other result : Word} {memory middle : Memory} {log later : List Word}

/-- The walk only reads, so a call that is interrupted once it found its block still returns it. -/
theorem kmallocLoop_interleaved {fuel : ℕ} {ptr : Word} {after : Memory} (hresult : result ≠ 0)
    (hother : OtherCall head other (memory, log) (middle, later))
    (hexec : exec handle (kmallocLoop size fuel ptr) memory = some (result, after)) :
    ∃ last, Interleaved (beside handle) (fun _ ↦ True) (OtherCall head other) (kmallocLoop size fuel ptr)
      (memory, log) result (last, later) := by
  induction fuel generalizing ptr with
  | zero => cases hexec
  | succ fuel ih =>
    rw [kmallocLoop] at hexec ⊢
    by_cases hend : ptr = 0
    · rw [if_pos hend] at hexec
      obtain ⟨rfl, -⟩ := Prod.mk.inj (Option.some.inj hexec)
      exact absurd rfl hresult
    rw [if_neg hend] at hexec ⊢
    let skips := !(memory (ptr + 4) != 0) || decide (memory.load32 ptr < size)
    have hrest : exec handle (if skips = true then readNext ptr >>= fun next ↦ kmallocLoop size fuel next
        else kmallocTake ptr size) memory = some (result, after) := hexec
    suffices h : ∃ last, Interleaved (beside handle) (fun _ ↦ True) (OtherCall head other)
        (if skips = true then readNext ptr >>= fun next ↦ kmallocLoop size fuel next
          else kmallocTake ptr size) (memory, log) result (last, later) by
      obtain ⟨last, h⟩ := h
      exact ⟨last, .perform rfl (.perform rfl h)⟩
    by_cases hskips : skips = true
    · rw [if_pos hskips] at hrest ⊢
      obtain ⟨last, hwalk⟩ := ih hrest
      exact ⟨last, .perform rfl hwalk⟩
    · rw [if_neg hskips] at hrest ⊢
      obtain ⟨value, last, htake, hvalue⟩ := (kmallocTake_returns ptr size middle).exec
      obtain rfl : result = value := ((kmallocTake_returns ptr size memory).of_exec hrest).trans hvalue.symm
      refine ⟨last, .disturb trivial hother (.of_exec ?_)⟩
      rw [exec_beside, htake]
      rfl

/-- Two requests that each would get the same block can both get it: a preemption of the first call, in
which the second one runs to its end, hands out one block twice. -/
theorem kmalloc_grants_twice {first second : Memory} (hresult : result ≠ 0)
    (hfirst : exec handle (kmalloc head size) memory = some (result, first))
    (hsecond : exec handle (kmalloc head other) memory = some (result, second)) :
    ∃ last, Interleaved (beside handle) (fun _ ↦ True) (OtherCall head other) (kmalloc head size)
      (memory, []) result (last, [result]) := by
  have hother : OtherCall head other (memory, []) (second, [result]) := ⟨result, hsecond, rfl⟩
  rw [kmalloc] at hfirst ⊢
  by_cases hzero : size = 0
  · rw [if_pos hzero] at hfirst
    exact absurd (Prod.mk.inj (Option.some.inj hfirst)).1.symm hresult
  · rw [if_neg hzero] at hfirst ⊢
    exact kmallocLoop_interleaved hresult hother hfirst

/-- On a fresh heap, for 24 and for 8 bytes. -/
theorem kmalloc_grants_twice_fresh_heap : ∃ client last, Initial client ∧
    Interleaved (beside handle) (fun _ ↦ True) (OtherCall client.head 8) (kmalloc client.head 24)
      (client.memory, []) 0x100010#32 (last, [0x100010#32]) := by
  obtain ⟨head, memory, hinit, -⟩ := (kmallocInit_spec fun _ ↦ 0).exec
  have hinitial : Initial ⟨memory, head, [], fun _ ↦ none⟩ := .init hinit
  have hsmall : allocate 8 [⟨0x100000 - 16, true⟩] =
      some (0x100000, [⟨8, false⟩, ⟨0x100000 - 40, true⟩]) := by decide
  have hspec := (Invariant.initial hinitial).kmalloc_spec 24
  have hother := (Invariant.initial hinitial).kmalloc_spec 8
  rw [allocate_fresh] at hspec
  rw [hsmall] at hother
  obtain ⟨result, first, hfirst, rfl, -⟩ := hspec.exec
  obtain ⟨result, second, hsecond, rfl, -⟩ := hother.exec
  obtain ⟨last, hlast⟩ := kmalloc_grants_twice (by decide) hfirst hsecond
  exact ⟨_, last, hinitial, hlast⟩

end NeilOS.Kmalloc
