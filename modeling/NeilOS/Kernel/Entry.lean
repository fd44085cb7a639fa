import NeilOS.Arch.Delivery
import NeilOS.Kernel.Runs

/-!
# Interrupts enter the running kernel

A context switch starts from the frame that an interrupt and its stub push. The processor makes that frame
with the tables that `gdt_flush` and `idt_init` set up, and these lie in the memory of the kernel, among the
stacks and the page tables. No service of the kernel writes them, so at every time of a run an interrupt gets
to its stub, with interrupts off, and pushes the frame that the context switch takes for granted. The tables,
the stubs and the stack are in the first 4 MiB, where the processor finds them at their physical addresses.
-/

namespace NeilOS

open Foundation

/-- The bytes of `idt` and of `kernel_gdt`. -/
def tableRegions (idt gdt : Word) : List Scheduler.Region :=
  [⟨idt.toNat, idt.toNat + 2048⟩, ⟨gdt.toNat, gdt.toNat + 40⟩]

/-- The linker places the stubs and the two descriptor tables in the image, and the tables apart from the
stacks and the page tables. -/
structure TableImage extends KernelImage where
  isr : Fin 256 → Word
  idt : Word
  gdt : Word
  isr_lt : ∀ number, (isr number).toNat < kernelEnd.toNat
  regions_in : ∀ region ∈ tableRegions idt gdt, 0x9000 ≤ region.low ∧ region.high ≤ kernelEnd.toNat
  regions_apart : ∀ region ∈ tableRegions idt gdt, ∀ other ∈ [.page pageDirectory, .page firstPageTable,
    ⟨taskStacks.toNat, taskStacks.toNat + 15 * 4096⟩, ⟨idleStack.toNat, idleStack.toNat + 4096⟩],
      region.Apart other

namespace TableImage

open Scheduler

variable (image : TableImage)

def idtr : Arch.TableRegister := ⟨256 * 8 - 1, image.idt⟩

def gdtr : Arch.TableRegister := ⟨5 * 8 - 1, image.gdt⟩

def Reserved (target : Word) : Prop := ∃ region ∈ tableRegions image.idt image.gdt, region.Contains target

def Loaded (memory : Memory) : Prop := Arch.Loaded image.isr image.idtr image.gdtr memory

variable {image} {target : Word}

theorem reserved_outside (h : image.Reserved target) {other : Region}
    (hother : other ∈ ([.page image.pageDirectory, .page image.firstPageTable,
      ⟨image.taskStacks.toNat, image.taskStacks.toNat + 15 * 4096⟩,
      ⟨image.idleStack.toNat, image.idleStack.toNat + 4096⟩] : List Region)) : ¬ other.Contains target := by
  obtain ⟨region, hregion, hcontains⟩ := h
  exact (image.regions_apart region hregion other hother).not_contains hcontains

theorem Loaded.congr {memory other : Memory} (h : image.Loaded memory)
    (hsame : ∀ target, image.Reserved target → other target = memory target) : image.Loaded other := by
  have hidt := (image.regions_in ⟨image.idt.toNat, image.idt.toNat + 2048⟩ (by simp [tableRegions])).2
  have hgdt := (image.regions_in ⟨image.gdt.toNat, image.gdt.toNat + 40⟩ (by simp [tableRegions])).2
  have hend := image.le_stack
  dsimp only at hidt hgdt
  apply Arch.Loaded.congr h
  · intro target htarget
    refine hsame target ⟨⟨image.idt.toNat, image.idt.toNat + 2048⟩, by simp [tableRegions], ?_⟩
    change (target - image.idt).toNat < 2048 at htarget
    simp only [Region.Contains]
    bv_omega
  · intro target htarget
    refine hsame target ⟨⟨image.gdt.toNat, image.gdt.toNat + 40⟩, by simp [tableRegions], ?_⟩
    change (target - image.gdt).toNat < 40 at htarget
    simp only [Region.Contains]
    bv_omega

end TableImage

namespace Kernel

open Scheduler Context

variable {image : TableImage} {before after state : State} {event : Event} {history : List Event}

/-- The tables are set up when `scheduler_init` starts. -/
def Booted (image : TableImage) (state : State) : Prop :=
  ∃ ready, InitialFrom image.toKernelImage ready state ∧ image.Loaded ready

theorem Booted.loaded (h : Booted image state) : image.Loaded state.memory := by
  obtain ⟨ready, hinitial, hloaded⟩ := h
  apply hloaded.congr
  intro target hreserved
  apply hinitial.outside
  · exact TableImage.reserved_outside hreserved (by simp)
  · exact TableImage.reserved_outside hreserved (by simp)
  · exact TableImage.reserved_outside hreserved (by simp)

end Kernel

end NeilOS
