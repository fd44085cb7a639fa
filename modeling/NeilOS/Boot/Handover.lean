import NeilOS.Boot.Serial
import NeilOS.Boot.Stage1

/-!
# The machine that `kmain` finds

`jump_to_kernel` and `_start` put together. Two descriptor tables are used one after the other, the one of stage 2
and the permanent one of the kernel, and both describe the same two segments, whose accessed bits the processor
sets. The message over the serial port is
read after `.bss` has been cleared, so it ends there at the latest.
-/

namespace NeilOS.Start

open Foundation Program
open Arch (load64 kernelGdt Descriptor accessedBit marked)

/-! ## The clearing of `.bss` -/

/-- The memory with a number of bytes from an address on set. -/
def filled (memory : Memory) (first : Word) (count : ℕ) (value : Byte) : Memory := fun target ↦
  if (target - first).toNat < count then value else memory target

theorem exec_repStosb {status : ℕ → Byte} {machine : Machine} {count : ℕ} {edi : Word} (al : Byte)
    (hflat : Flat machine) (hcount : count < 2 ^ 32) :
    exec (handle status) (repStosb al count edi) machine =
      some ((), { machine with memory := filled machine.memory edi count al }) := by
  induction count generalizing machine edi with
  | zero =>
    have hnone : filled machine.memory edi 0 al = machine.memory :=
      funext fun target ↦ if_neg (Nat.not_lt_zero _)
    rw [hnone]
    rfl
  | succ count ih =>
    let stored : Machine := { machine with memory := machine.memory.store8 edi al }
    have hrest := @ih stored (edi + 1) hflat (by omega)
    have hmemory : filled stored.memory (edi + 1) count al = filled machine.memory edi (count + 1) al := by
      funext target
      unfold filled
      by_cases hfirst : target = edi
      · have hlast : ¬ (target - (edi + 1)).toNat < count := by bv_omega
        have hinside : (target - edi).toNat < count + 1 := by bv_omega
        rw [if_neg hlast, if_pos hinside, hfirst]
        exact Memory.store8_same machine.memory edi al
      · have hsame : stored.memory target = machine.memory target := Memory.store8_of_ne hfirst
        have hiff : (target - (edi + 1)).toNat < count ↔ (target - edi).toNat < count + 1 := by bv_omega
        rw [hsame]
        exact if_congr hiff rfl rfl
    rw [repStosb, exec_bind, exec_store hflat (by decide), Option.bind_some]
    exact hrest.trans (congrArg (fun memory ↦ some ((), { machine with memory := memory })) hmemory)

/-! ## The segments -/

/-- Protected mode, with the two segments of the kernel in the table that `gdtr` refers to. -/
structure Described (machine : Machine) : Prop where
  mode : machine.cr0.getLsbD 0 = true
  limit : 23 ≤ machine.gdtr.limit.toNat
  code : load64 machine.memory (machine.gdtr.base + 8) ||| accessedBit = kernelGdt 1 ||| accessedBit
  data : load64 machine.memory (machine.gdtr.base + 16) ||| accessedBit = kernelGdt 2 ||| accessedBit

/-- The descriptor that the code segment is loaded with. -/
def flatCode : Segment := ⟨0x08, 0, 0xFFFFFFFF⟩

/-- The machine with a segment loaded from a descriptor. -/
def Machine.withDescriptor (name : SegmentName) (segment : Segment) (descriptor : Word) (machine : Machine) :
    Machine :=
  { machine.withSegment name segment with memory := marked machine.memory descriptor }

/-- All the data segments loaded with the same descriptor. -/
def withData (machine : Machine) : Machine :=
  { machine with
    segments := fun name ↦ if name = .cs then machine.segments .cs else flat
    memory := marked machine.memory (machine.gdtr.base + 16) }

section Segments

variable {status : ℕ → Byte} {machine : Machine}

/-- The accessed bit does not decide whether a segment may be loaded. -/
theorem admits_or (name : SegmentName) (quad : BitVec 64) :
    name.admits (Descriptor.decode (quad ||| accessedBit)).access =
      name.admits (Descriptor.decode quad).access := by
  rw [Arch.decode_or]
  change name.admits ((Descriptor.decode quad).access ||| 1) = _
  generalize (Descriptor.decode quad).access = access
  cases name <;> revert access <;> decide

theorem ofDescriptor_or (selector : BitVec 16) (quad : BitVec 64) :
    Segment.ofDescriptor selector (Descriptor.decode (quad ||| accessedBit)) =
      .ofDescriptor selector (Descriptor.decode quad) := by
  rw [Arch.decode_or]
  rfl

theorem segmentOf_eq {name : SegmentName} {selector : BitVec 16} {quad : BitVec 64}
    (hmode : machine.cr0.getLsbD 0 = true) (hselector : selector &&& 0xFFF8 = selector) (hnull : selector ≠ 0)
    (hlimit : selector.toNat + 7 ≤ machine.gdtr.limit.toNat)
    (hquad : load64 machine.memory (machine.gdtr.base + selector.setWidth 32) ||| accessedBit =
      quad ||| accessedBit)
    (hadmits : name.admits (Descriptor.decode quad).access = true) :
    machine.segmentOf name selector = some (.ofDescriptor selector (Descriptor.decode quad)) := by
  have hprotected : ¬ machine.cr0.getLsbD 0 = false := ne_false_of_eq_true hmode
  have hinside : ¬ (selector = 0 ∨ machine.gdtr.limit.toNat < selector.toNat + 7) :=
    not_or.mpr ⟨hnull, Nat.not_lt.mpr hlimit⟩
  have hactual : name.admits (Descriptor.decode
      (load64 machine.memory (machine.gdtr.base + selector.setWidth 32))).access = true := by
    rw [← admits_or, hquad, admits_or]
    exact hadmits
  unfold Machine.segmentOf
  dsimp only
  rw [if_neg hprotected, hselector, if_neg hinside, if_pos hactual, ← ofDescriptor_or, hquad, ofDescriptor_or]

theorem exec_loadSegment {name : SegmentName} {selector : BitVec 16} {segment : Segment}
    (hmode : machine.cr0.getLsbD 0 = true) (hselector : selector &&& 0xFFF8 = selector)
    (h : machine.segmentOf name selector = some segment) :
    exec (handle status) (loadSegment name selector) machine =
      some ((), machine.withDescriptor name segment (machine.gdtr.base + selector.setWidth 32)) := by
  refine (Option.bind_fun_some _).trans ?_
  change machine.loadSegment name selector = _
  rw [Machine.loadSegment, h, Option.map_some, if_neg (ne_false_of_eq_true hmode), hselector]
  rfl

theorem exec_loadCode (h : Described machine) :
    exec (handle status) (loadSegment .cs 0x08) machine =
      some ((), machine.withDescriptor .cs flatCode (machine.gdtr.base + 8)) := by
  have hlimit : (0x08 : BitVec 16).toNat + 7 ≤ machine.gdtr.limit.toNat :=
    (by decide : (0x08 : BitVec 16).toNat + 7 ≤ 23).trans h.limit
  have hsegment : machine.segmentOf .cs 0x08 = some flatCode :=
    calc machine.segmentOf .cs 0x08
        = some (.ofDescriptor 0x08 (Descriptor.decode (kernelGdt 1))) :=
          segmentOf_eq h.mode (by decide) (by decide) hlimit h.code (by decide)
      _ = some flatCode := by decide
  exact exec_loadSegment h.mode (by decide) hsegment

theorem exec_loadFlat (h : Described machine) {name : SegmentName} (hname : name ≠ .cs) :
    exec (handle status) (loadSegment name 0x10) machine =
      some ((), machine.withDescriptor name flat (machine.gdtr.base + 16)) := by
  have hlimit : (0x10 : BitVec 16).toNat + 7 ≤ machine.gdtr.limit.toNat :=
    (by decide : (0x10 : BitVec 16).toNat + 7 ≤ 23).trans h.limit
  have hadmits : name.admits (Descriptor.decode (kernelGdt 2)).access = true := by
    cases name with
    | cs => exact absurd rfl hname
    | _ => decide
  have hsegment : machine.segmentOf name 0x10 = some flat :=
    calc machine.segmentOf name 0x10
        = some (.ofDescriptor 0x10 (Descriptor.decode (kernelGdt 2))) :=
          segmentOf_eq h.mode (by decide) (by decide) hlimit h.data hadmits
      _ = some flat := by decide
  exact exec_loadSegment h.mode (by decide) hsegment

/-- A load leaves the two descriptors as they are but for the accessed bit. -/
theorem Described.withDescriptor (h : Described machine) (name : SegmentName) (segment : Segment)
    {descriptor : Word}
    (hdescriptor : descriptor = machine.gdtr.base + 8 ∨ descriptor = machine.gdtr.base + 16) :
    Described (machine.withDescriptor name segment descriptor) := by
  refine ⟨h.mode, h.limit, ?_, ?_⟩
  · rw [← h.code]
    apply Arch.load64_marked_or
    change machine.gdtr.base + 8 = descriptor ∨ 8 ≤ (descriptor + 5 - (machine.gdtr.base + 8)).toNat
    bv_omega
  · rw [← h.data]
    apply Arch.load64_marked_or
    change machine.gdtr.base + 16 = descriptor ∨ 8 ≤ (descriptor + 5 - (machine.gdtr.base + 16)).toNat
    bv_omega

/-- A second segment from the same descriptor finds the bit set. -/
theorem Machine.memory_withDescriptor_again {memory : Memory} {descriptor : Word}
    (h : machine.memory = marked memory descriptor) (name : SegmentName) (segment : Segment) :
    (machine.withDescriptor name segment descriptor).memory = marked memory descriptor := by
  change marked machine.memory descriptor = _
  rw [h, Arch.marked_marked]

/-- The data segments leave the same mark, once or five times. -/
theorem Described.withData (h : Described machine) : Described (withData machine) :=
  have hmarked := h.withDescriptor .ds flat (.inr rfl)
  ⟨hmarked.mode, hmarked.limit, hmarked.code, hmarked.data⟩

theorem exec_loadData (h : Described machine) :
    exec (handle status) (loadData 0x10) machine = some ((), withData machine) := by
  let descriptor := machine.gdtr.base + 16
  let ds := machine.withDescriptor .ds flat descriptor
  let es := ds.withDescriptor .es flat descriptor
  let fs := es.withDescriptor .fs flat descriptor
  let gs := fs.withDescriptor .gs flat descriptor
  let ss := gs.withDescriptor .ss flat descriptor
  have hds : Described ds := h.withDescriptor .ds flat (.inr rfl)
  have hes : Described es := hds.withDescriptor .es flat (.inr rfl)
  have hfs : Described fs := hes.withDescriptor .fs flat (.inr rfl)
  have hgs : Described gs := hfs.withDescriptor .gs flat (.inr rfl)
  have hloadDs : exec (handle status) (loadSegment .ds 0x10) machine = some ((), ds) :=
    exec_loadFlat h (by decide)
  have hloadEs : exec (handle status) (loadSegment .es 0x10) ds = some ((), es) :=
    exec_loadFlat hds (by decide)
  have hloadFs : exec (handle status) (loadSegment .fs 0x10) es = some ((), fs) :=
    exec_loadFlat hes (by decide)
  have hloadGs : exec (handle status) (loadSegment .gs 0x10) fs = some ((), gs) :=
    exec_loadFlat hfs (by decide)
  have hloadSs : exec (handle status) (loadSegment .ss 0x10) gs = some ((), ss) :=
    exec_loadFlat hgs (by decide)
  have hsegments : ss.segments = (withData machine).segments := by
    funext name
    cases name <;> rfl
  have hdsMemory : ds.memory = marked machine.memory descriptor := rfl
  have hesMemory := Machine.memory_withDescriptor_again hdsMemory .es flat
  have hfsMemory := Machine.memory_withDescriptor_again hesMemory .fs flat
  have hgsMemory := Machine.memory_withDescriptor_again hfsMemory .gs flat
  have hmemory : ss.memory = (withData machine).memory :=
    Machine.memory_withDescriptor_again hgsMemory .ss flat
  rw [loadData, exec_bind, hloadDs, Option.bind_some, exec_bind]
  dsimp only
  rw [hloadEs, Option.bind_some, exec_bind]
  dsimp only
  rw [hloadFs, Option.bind_some, exec_bind]
  dsimp only
  rw [hloadGs, Option.bind_some]
  dsimp only
  rw [hloadSs]
  exact congrArg₂ (fun segments memory ↦ some ((), { machine with segments := segments, memory := memory }))
    hsegments hmemory

end Segments

/-! ## The entry of the kernel -/

/-- `msg_kernel`, which ends without a zero. -/
def kernelText : List Byte := Boot.characters "Kernel reached!\r\n"

/-- What `_start` reads of the loaded kernel. -/
structure KernelAt (image : StartImage) (memory : Memory) : Prop where
  table : Machine.tableAt memory image.kernelGdtr true = ⟨39, image.kernelGdt⟩
  entries : ∀ index : Fin 5, load64 memory (image.kernelGdt + 8 * .ofNat 32 index.val) = kernelGdt index
  message : ∀ index (hindex : index < kernelText.length),
    memory (image.msgKernel + .ofNat 32 index) = kernelText[index]

theorem tableAt_congr {memory other : Memory} {address : Word} (wide : Bool)
    (h : ∀ target : Word, (target - address).toNat < 6 → other target = memory target) :
    Machine.tableAt other address wide = Machine.tableAt memory address wide := by
  have hbase : other.load32 (address + 2) = memory.load32 (address + 2) :=
    Memory.load32_congr fun target htarget ↦ h target (by bv_omega)
  unfold Machine.tableAt
  rw [h address (by bv_omega), h (address + 1) (by bv_omega), hbase]

/-- The kernel is all in the part of the memory before `.bss`. -/
theorem KernelAt.congr {image : StartImage} {memory other : Memory} (h : KernelAt image memory)
    (hsame : ∀ target : Word, 0x9000 ≤ target.toNat → target.toNat < image.bssStart.toNat →
      other target = memory target) : KernelAt image other where
  table := by
    have hlow := image.gdtr_ge
    have hhigh := image.gdtr_le
    refine (tableAt_congr true fun target htarget ↦ ?_).trans h.table
    exact hsame target (by bv_omega) (by bv_omega)
  entries := by
    intro index
    have hlow := image.gdt_ge
    have hhigh := image.gdt_le
    have hindex := index.isLt
    refine (Arch.load64_congr fun target htarget ↦ ?_).trans (h.entries index)
    exact hsame target (by bv_omega) (by bv_omega)
  message := by
    intro index hindex
    have hlow := image.msg_ge
    have hhigh := image.msg_le
    have hlength : kernelText.length = 17 := by decide
    rw [← h.message index hindex]
    exact hsame _ (by bv_omega) (by bv_omega)

/-- The memory after the segments have been loaded from the permanent table. -/
def tableInUse (image : StartImage) (memory : Memory) : Memory :=
  marked (marked memory (image.kernelGdt + 16)) (image.kernelGdt + 8)

/-- A byte depends on the same byte only. -/
theorem tableInUse_congr (image : StartImage) {memory other : Memory} {target : Word}
    (h : other target = memory target) : tableInUse image other target = tableInUse image memory target :=
  Arch.marked_congr (Arch.marked_congr h)

theorem tableInUse_of_ne {image : StartImage} {memory : Memory} {target : Word}
    (h : target.toNat < image.kernelGdt.toNat ∨ image.kernelGdt.toNat + 40 ≤ target.toNat) :
    tableInUse image memory target = memory target := by
  have hbss := image.gdt_le
  have hlt := image.bss_lt
  have hend := image.bss_le
  rw [tableInUse, Arch.marked_of_ne (by bv_omega), Arch.marked_of_ne (by bv_omega)]

/-- The data segments are loaded twice. -/
theorem marked_tableInUse (image : StartImage) (memory : Memory) :
    marked (tableInUse image memory) (image.kernelGdt + 16) = tableInUse image memory := by
  apply Arch.marked_of_set
  have hbyte : tableInUse image memory (image.kernelGdt + 16 + 5) = memory (image.kernelGdt + 16 + 5) ||| 1 :=
    calc tableInUse image memory (image.kernelGdt + 16 + 5)
        = marked memory (image.kernelGdt + 16) (image.kernelGdt + 16 + 5) := Arch.marked_of_ne (by bv_omega)
      _ = memory (image.kernelGdt + 16 + 5) ||| 1 := Memory.store8_same ..
  rw [hbyte, BitVec.or_assoc, BitVec.or_self]

theorem load64_tableInUse (image : StartImage) (memory : Memory) (index : Fin 5) :
    load64 (tableInUse image memory) (image.kernelGdt + 8 * .ofNat 32 index.val) ||| accessedBit =
      load64 memory (image.kernelGdt + 8 * .ofNat 32 index.val) ||| accessedBit := by
  have hlt := index.isLt
  rw [tableInUse, Arch.load64_marked_or (by bv_omega), Arch.load64_marked_or (by bv_omega)]

/-- The segments of the running kernel. -/
def flatSegments (name : SegmentName) : Segment := if name = .cs then flatCode else flat

section Tables

variable {status : ℕ → Byte} {image : StartImage} {machine : Machine} {regs : Registers}

theorem KernelAt.described (h : KernelAt image machine.memory) (hmode : machine.cr0.getLsbD 0 = true)
    (hgdtr : machine.gdtr = ⟨39, image.kernelGdt⟩) : Described machine where
  mode := hmode
  limit := by
    rw [hgdtr]
    exact (by decide : 23 ≤ (39 : BitVec 16).toNat)
  code := by
    rw [hgdtr]
    exact congrArg (· ||| accessedBit) (h.entries 1)
  data := by
    rw [hgdtr]
    exact congrArg (· ||| accessedBit) (h.entries 2)

theorem exec_lgdt (hflat : Flat machine) {offset : Word} (hoffset : offset.toNat + 6 ≤ 2 ^ 32) :
    exec (handle status) (lgdt .ds offset true) machine =
      some ((), { machine with gdtr := Machine.tableAt machine.memory offset true }) := by
  refine (Option.bind_fun_some _).trans ?_
  change machine.lgdt .ds offset true = _
  rw [Machine.lgdt, hflat .ds (by decide), locate_flat hoffset, Option.map_some]

/-- The argument on the stack leads to the permanent table. -/
theorem exec_gdtFlush (hflat : Flat machine) (hmode : machine.cr0.getLsbD 0 = true)
    (h : KernelAt image machine.memory) (hesp : regs.esp.toNat + 8 ≤ 2 ^ 32)
    (hargument : machine.memory.load32 (regs.esp + 4) = image.kernelGdtr) :
    ∃ inner : Registers, inner.esp = regs.esp ∧ exec (handle status) (gdtFlush regs) machine =
      some (inner, { machine with
        memory := tableInUse image machine.memory
        segments := flatSegments
        gdtr := ⟨39, image.kernelGdt⟩ }) := by
  let loaded : Machine := { machine with gdtr := ⟨39, image.kernelGdt⟩ }
  have hdescribed : Described loaded := @KernelAt.described image loaded h hmode rfl
  have hcode : exec (handle status) (loadSegment .cs 0x08) (withData loaded) =
      some ((), (withData loaded).withDescriptor .cs flatCode (image.kernelGdt + 8)) :=
    exec_loadCode (hdescribed.withData)
  have hgdtr := image.gdtr_le
  refine ⟨{ regs with eax := (Register.ofWord image.kernelGdtr).setHalf 0x10 }, rfl, ?_⟩
  rw [gdtFlush, exec_bind, exec_load32 hflat (by bv_omega), Option.bind_some]
  dsimp only
  rw [hargument, exec_bind, exec_lgdt hflat (by bv_omega), Option.bind_some, h.table]
  dsimp only
  rw [Register.half_setHalf, exec_bind, exec_loadData hdescribed, Option.bind_some, exec_bind]
  dsimp only
  rw [hcode, Option.bind_some]
  have hsegments : ((withData loaded).withDescriptor .cs flatCode (image.kernelGdt + 8)).segments =
      flatSegments := by
    funext name
    cases name <;> rfl
  exact congrArg (fun segments ↦ some (_, { loaded with
    memory := tableInUse image machine.memory
    segments := segments })) hsegments

/-- The permanent table and the flat segments; two words of the old stack and the accessed bits are written. -/
theorem exec_startTables (hflat : Flat machine) (hmode : machine.cr0.getLsbD 0 = true)
    (h : KernelAt image machine.memory) (hesp : regs.esp = 0x9F000) :
    ∃ (inner : Registers) (memory : Memory), exec (handle status) (startTables image regs) machine =
        some (inner, { machine with
          memory := memory
          segments := flatSegments
          gdtr := ⟨39, image.kernelGdt⟩
          interrupts := false }) ∧
      ∀ target : Word, ¬ (0x9EFF8 ≤ target.toNat ∧ target.toNat < 0x9F000) →
        memory target = tableInUse image machine.memory target := by
  have hbss := image.bss_le
  have hlt := image.bss_lt
  have hgdt := image.gdt_le
  let first : Machine := { machine with interrupts := false }
  let second : Machine := { first with memory := machine.memory.store32 (regs.esp - 4) image.kernelGdtr }
  let third : Machine := { second with
    memory := second.memory.store32 (regs.esp - 4 - 4) image.afterGdtFlush }
  have htop : regs.esp.toNat = 0x9F000 := by
    rw [hesp]
    decide
  have hsecond : Kept 0x9EFF8 0x9F000 first second :=
    (Kept.refl _ _ first).push image.kernelGdtr (by omega) (by omega)
  have hthird : Kept 0x9EFF8 0x9F000 first third :=
    hsecond.push image.afterGdtFlush (by bv_omega) (by bv_omega)
  have hkernel : KernelAt image third.memory := by
    apply h.congr
    intro target _ hhigh
    exact hthird.memory target (by omega)
  have hargument : third.memory.load32 (regs.esp - 4 - 4 + 4) = image.kernelGdtr :=
    load32_pushed machine.memory image.kernelGdtr image.afterGdtFlush (by omega)
  have hflatFirst : Flat first := hflat
  obtain ⟨flushed, hdepth, hflush⟩ := @exec_gdtFlush status image third { regs with esp := regs.esp - 4 - 4 }
    (hflatFirst.kept hthird) hmode hkernel (by dsimp only; bv_omega) hargument
  let installed : Machine := { third with
    memory := tableInUse image third.memory
    segments := flatSegments
    gdtr := ⟨39, image.kernelGdt⟩ }
  have hinstalled : Flat installed := fun name hname ↦ if_neg hname
  have hreturn : (tableInUse image third.memory).load32 (regs.esp - 4 - 4) = image.afterGdtFlush :=
    calc (tableInUse image third.memory).load32 (regs.esp - 4 - 4)
        = third.memory.load32 (regs.esp - 4 - 4) :=
          Memory.load32_congr fun target htarget ↦ tableInUse_of_ne (by bv_omega)
      _ = image.afterGdtFlush := Memory.load32_store32 ..
  have hcall := @exec_callNear status second { regs with esp := regs.esp - 4 } image.afterGdtFlush gdtFlush
    flushed installed (hflatFirst.kept hsecond) (by dsimp only; bv_omega) hflush hdepth hinstalled hreturn
  have hdescribed : Described installed :=
    ⟨hmode, (by decide : 23 ≤ (39 : BitVec 16).toNat),
      (load64_tableInUse image third.memory 1).trans (congrArg (· ||| accessedBit) (hkernel.entries 1)),
      (load64_tableInUse image third.memory 2).trans (congrArg (· ||| accessedBit) (hkernel.entries 2))⟩
  have hagain : (withData installed).segments = flatSegments := by
    funext name
    cases name <;> rfl
  have hmarked : (withData installed).memory = tableInUse image third.memory := marked_tableInUse image third.memory
  refine ⟨{ flushed with esp := regs.esp - 4 + 4, eax := flushed.eax.setHalf 0x10 }, tableInUse image third.memory, ?_,
    fun target htarget ↦ tableInUse_congr image (hthird.memory target htarget)⟩
  have hcli : exec (handle status) cli machine = some ((), first) := rfl
  rw [startTables, exec_bind, hcli, Option.bind_some, exec_bind, exec_push hflatFirst (by omega), Option.bind_some,
    exec_bind]
  dsimp only
  rw [hcall, Option.bind_some]
  dsimp only
  rw [Register.half_setHalf, exec_bind, exec_loadData hdescribed, Option.bind_some]
  exact congrArg₂ (fun segments memory ↦ some (_, { installed with segments := segments, memory := memory }))
    hagain hmarked

end Tables

/-- The words of the two stacks that are used on the way. -/
def OnStack (target : Word) : Prop :=
  (0x9EFF8 ≤ target.toNat ∧ target.toNat < 0x9F000) ∨ (0x9DFE8 ≤ target.toNat ∧ target.toNat < 0x9E000)

section Kernel

variable {status : ℕ → Byte} {patience : ℕ} {image : StartImage} {machine : Machine} {regs : Registers}

/-- The message goes on behind its last character, up to the first zero, and `.bss` has one. -/
theorem exists_text {memory : Memory} (h : ∀ index (hindex : index < kernelText.length),
      memory (image.msgKernel + .ofNat 32 index) = kernelText[index]) (hzero : memory image.bssStart = 0) :
    ∃ rest, TextFrom memory (fun esi ↦ esi + 1) image.msgKernel (kernelText ++ rest) ∧
      TextFrom memory (fun esi ↦ esi + 1) (image.msgKernel + 17) rest ∧
      image.msgKernel.toNat + 17 + rest.length ≤ image.bssStart.toNat := by
  have hbss := image.msg_le
  have hlength : kernelText.length = 17 := by decide
  have hnonzero : ∀ index (hindex : index < kernelText.length), kernelText[index] ≠ 0 := by decide
  let distance := image.bssStart.toNat - (image.msgKernel.toNat + 17)
  have hend : memory ((fun esi : Word ↦ esi + 1)^[distance] (image.msgKernel + 17)) = 0 := by
    have haddress : image.msgKernel + 17 + .ofNat 32 distance = image.bssStart := by
      dsimp only [distance]
      bv_omega
    rw [iterate_add_one, haddress]
    exact hzero
  obtain ⟨rest, hrest, hshort⟩ := TextFrom.exists_of_zero hend
  refine ⟨rest, ?_, hrest, by omega⟩
  apply TextFrom.append
  · intro index hindex
    rw [iterate_add_one]
    exact ⟨hnonzero index hindex, h index hindex⟩
  · rw [iterate_add_one, hlength]
    exact hrest

/-- The memory with `.bss` cleared. -/
def withoutBss (image : StartImage) (memory : Memory) : Memory :=
  filled memory image.bssStart (image.bssEnd - image.bssStart).toNat 0

theorem withoutBss_inside (memory : Memory) {target : Word} (hlow : image.bssStart.toNat ≤ target.toNat)
    (hhigh : target.toNat < image.bssEnd.toNat) : withoutBss image memory target = 0 :=
  if_pos (by bv_omega)

theorem withoutBss_outside (memory : Memory) {target : Word}
    (h : ¬ (image.bssStart.toNat ≤ target.toNat ∧ target.toNat < image.bssEnd.toNat)) :
    withoutBss image memory target = memory target := by
  have hlt := image.bss_lt
  exact if_neg (by bv_omega)

/-- What `_start` leaves to `kmain`. -/
structure Started (image : StartImage) (before : Machine) (inner : Registers) (after : Machine) : Prop where
  esp : inner.esp = 0x9DFFC
  returns : after.memory.load32 0x9DFFC = image.hang
  segments : after.segments = flatSegments
  gdtr : after.gdtr = ⟨39, image.kernelGdt⟩
  entries : ∀ index : Fin 5,
    load64 after.memory (image.kernelGdt + 8 * .ofNat 32 index.val) ||| accessedBit =
      kernelGdt index ||| accessedBit
  cr0 : after.cr0 = before.cr0
  interrupts : after.interrupts = false
  systemControl : after.systemControl = before.systemControl
  bss : ∀ target : Word, image.bssStart.toNat ≤ target.toNat → target.toNat < image.bssEnd.toNat →
    after.memory target = 0
  memory : ∀ target : Word, ¬ (image.bssStart.toNat ≤ target.toNat ∧ target.toNat < image.bssEnd.toNat) →
    ¬ OnStack target → after.memory target = tableInUse image before.memory target
  sent : ∃ rest empty, after.uart = (initialised before.uart).send (kernelText ++ rest) empty ∧
    TextFrom after.memory (fun esi ↦ esi + 1) (image.msgKernel + 17) rest ∧
    image.msgKernel.toNat + 17 + rest.length ≤ image.bssStart.toNat

/-- The state behind the clearing of `.bss`. From here on only the stack below `0x9E000` and the serial port
change. -/
structure Cleared (image : StartImage) (before cleared : Machine) : Prop where
  bss : ∀ target : Word, image.bssStart.toNat ≤ target.toNat → target.toNat < image.bssEnd.toNat →
    cleared.memory target = 0
  memory : ∀ target : Word, ¬ (image.bssStart.toNat ≤ target.toNat ∧ target.toNat < image.bssEnd.toNat) →
    ¬ (0x9EFF8 ≤ target.toNat ∧ target.toNat < 0x9F000) →
      cleared.memory target = tableInUse image before.memory target
  segments : cleared.segments = flatSegments
  gdtr : cleared.gdtr = ⟨39, image.kernelGdt⟩
  cr0 : cleared.cr0 = before.cr0
  interrupts : cleared.interrupts = false
  systemControl : cleared.systemControl = before.systemControl
  uart : cleared.uart = before.uart

section Cleared

variable {cleared later : Machine}

/-- The loaded kernel stays in memory, with its table in use. -/
theorem Cleared.loaded (h : Cleared image machine cleared) (hlater : Kept 0x9DFE8 0x9E000 cleared later)
    {target : Word} (hhigh : target.toNat < image.bssStart.toNat) :
    later.memory target = tableInUse image machine.memory target := by
  have hlt := image.bss_lt
  have hbss := image.bss_le
  calc later.memory target
      = cleared.memory target := hlater.memory target (by omega)
    _ = tableInUse image machine.memory target := h.memory target (by omega) (by omega)

theorem Cleared.message (h : Cleared image machine cleared) (hlater : Kept 0x9DFE8 0x9E000 cleared later)
    (hkernel : KernelAt image machine.memory) (index : ℕ) (hindex : index < kernelText.length) :
    later.memory (image.msgKernel + .ofNat 32 index) = kernelText[index] := by
  have hmsg := image.msg_le
  have hapart := image.msg_apart
  have hlt := image.bss_lt
  have hbss := image.bss_le
  have hlength : kernelText.length = 17 := by decide
  have haddress : (image.msgKernel + .ofNat 32 index).toNat = image.msgKernel.toNat + index := by bv_omega
  calc later.memory (image.msgKernel + .ofNat 32 index)
      = tableInUse image machine.memory (image.msgKernel + .ofNat 32 index) := h.loaded hlater (by omega)
    _ = machine.memory (image.msgKernel + .ofNat 32 index) := tableInUse_of_ne (by omega)
    _ = kernelText[index] := hkernel.message index hindex

theorem Cleared.entries (h : Cleared image machine cleared) (hlater : Kept 0x9DFE8 0x9E000 cleared later)
    (hkernel : KernelAt image machine.memory) (index : Fin 5) :
    load64 later.memory (image.kernelGdt + 8 * .ofNat 32 index.val) ||| accessedBit =
      kernelGdt index ||| accessedBit := by
  have hgdt := image.gdt_le
  have hlt := image.bss_lt
  have hbss := image.bss_le
  have hindex := index.isLt
  have hsame : load64 later.memory (image.kernelGdt + 8 * .ofNat 32 index.val) =
      load64 (tableInUse image machine.memory) (image.kernelGdt + 8 * .ofNat 32 index.val) :=
    Arch.load64_congr fun target htarget ↦ h.loaded hlater (by bv_omega)
  rw [hsame, load64_tableInUse, hkernel.entries index]

end Cleared

/-- The part of `_start` up to the first call on its own stack. -/
theorem exec_startCleared (hflat : Flat machine) (hmode : machine.cr0.getLsbD 0 = true)
    (h : KernelAt image machine.memory) (hesp : regs.esp = 0x9F000) :
    ∃ tabled prepared cleared, exec (handle status) (startTables image regs) machine = some (tabled, prepared) ∧
      exec (handle status) (repStosb 0 (image.bssEnd - image.bssStart).toNat image.bssStart) prepared =
        some ((), cleared) ∧
      Flat cleared ∧ Cleared image machine cleared := by
  have hcount : (image.bssEnd - image.bssStart).toNat < 2 ^ 32 := BitVec.isLt _
  obtain ⟨tabled, memory, htables, hmemory⟩ := @exec_startTables status image machine regs hflat hmode h hesp
  have hprepared : Flat { machine with
      memory := memory
      segments := flatSegments
      gdtr := ⟨39, image.kernelGdt⟩
      interrupts := false } := fun name hname ↦ if_neg hname
  refine ⟨tabled, _, _, htables, exec_repStosb 0 hprepared hcount, hprepared, ?_⟩
  exact
    { bss := fun target hlow hhigh ↦ withoutBss_inside memory hlow hhigh
      memory := fun target houtside hstack ↦ (withoutBss_outside memory houtside).trans (hmemory target hstack)
      segments := rfl
      gdtr := rfl
      cr0 := rfl
      interrupts := rfl
      systemControl := rfl
      uart := rfl }

/-- The message is read from the loaded kernel, and its end from the cleared `.bss`. -/
theorem exec_message {serial : Machine} {initial : Registers} {cleared : Machine}
    (hcleared : Cleared image machine cleared) (hkept : Kept 0x9DFE8 0x9E000 cleared serial)
    (hkernel : KernelAt image machine.memory) (hserial : Flat serial) (hstatus : Answers status patience)
    (hclosed : serial.uart.lineControl.getLsbD 7 = false) (hesp : initial.esp = 0x9E000) :
    ∃ put sent rest empty,
      exec (handle status) (callNear image.afterSerialPuts (serialPuts image patience)
        { initial with esi := image.msgKernel }) serial = some (put, sent) ∧
      put.esp = 0x9E000 ∧ Kept 0x9DFE8 0x9E000 serial sent ∧
      sent.uart = serial.uart.send (kernelText ++ rest) empty ∧
      TextFrom serial.memory (fun esi ↦ esi + 1) (image.msgKernel + 17) rest ∧
      image.msgKernel.toNat + 17 + rest.length ≤ image.bssStart.toNat := by
  have hlt := image.bss_lt
  have hbss := image.bss_le
  have htop : (0x9E000 : Word).toNat = 0x9E000 := by decide
  have hlength : kernelText.length = 17 := by decide
  have hzero : serial.memory image.bssStart = 0 :=
    (hkept.memory image.bssStart (by omega)).trans (hcleared.bss image.bssStart (Nat.le_refl _) hlt)
  obtain ⟨rest, htext, hrest, hshort⟩ := exists_text (hcleared.message hkept hkernel) hzero
  let messaging : Registers := { initial with esi := image.msgKernel }
  have hdepth : messaging.esp.toNat = 0x9E000 := (congrArg BitVec.toNat hesp).trans htop
  have hbelow : messaging.esi.toNat + (kernelText ++ rest).length + 24 < messaging.esp.toNat := by
    change image.msgKernel.toNat + _ + _ < _
    rw [hdepth, List.length_append, hlength]
    omega
  obtain ⟨put, sent, hputs, hputDepth, hputKept, empty, hputUart⟩ :=
    @exec_callNear_serialPuts status patience serial messaging image (kernelText ++ rest) hserial hstatus hclosed
      htext hbelow image.afterSerialPuts
  rw [hdepth] at hputKept
  exact ⟨put, sent, rest, empty, hputs, hputDepth.trans hesp, hputKept, hputUart, hrest, hshort⟩

theorem exec_start (hflat : Flat machine) (hmode : machine.cr0.getLsbD 0 = true)
    (h : KernelAt image machine.memory) (hstatus : Answers status patience) (hesp : regs.esp = 0x9F000) :
    ∃ inner after, exec (handle status) (start image patience regs) machine = some (inner, after) ∧
      Started image machine inner after := by
  have hlt := image.bss_lt
  have hbss := image.bss_le
  have hroom : 4 ≤ (0x9E000 : Word).toNat := by decide
  obtain ⟨tabled, prepared, cleared, htables, hstos, hclearedFlat, hcleared⟩ :=
    @exec_startCleared status image machine regs hflat hmode h hesp
  obtain ⟨initial, serial, hinit, hinitDepth, hinitKept, hinitUart⟩ :=
    @exec_callNear_serialInit status cleared { tabled with esp := 0x9E000, eax := .ofWord 0 } hclearedFlat hroom
      image.afterSerialInit
  have hserialKept : Kept 0x9DFE8 0x9E000 cleared serial :=
    hinitKept.widen (by decide : 0x9DFE8 ≤ (0x9E000 : Word).toNat - 4)
      (by decide : (0x9E000 : Word).toNat ≤ 0x9E000)
  have hclosed : serial.uart.lineControl.getLsbD 7 = false := by
    rw [hinitUart]
    exact (by decide : (0x03 : Byte).getLsbD 7 = false)
  obtain ⟨put, sent, rest, empty, hputs, hputEsp, hputKept, hputUart, hrest, hshort⟩ :=
    exec_message hcleared hserialKept h (hclearedFlat.kept hserialKept) hstatus hclosed hinitDepth
  have hsentKept : Kept 0x9DFE8 0x9E000 cleared sent := hserialKept.trans hputKept
  -- The call of `kmain`.
  let after : Machine := { sent with memory := sent.memory.store32 (0x9E000 - 4) image.hang }
  have hafter : Kept 0x9DFE8 0x9E000 cleared after :=
    hsentKept.push image.hang (by decide) (by decide)
  have hrestAfter : TextFrom after.memory (fun esi ↦ esi + 1) (image.msgKernel + 17) rest :=
    (hputKept.push image.hang (by decide) (by decide)).text hrest (by bv_omega) (by decide)
  have hpush : exec (handle status) (push image.hang put) sent = some ({ put with esp := 0x9E000 - 4 }, after) := by
    have hpushed := @exec_push status sent put (hclearedFlat.kept hsentKept) (by rw [hputEsp]; exact hroom)
      image.hang
    rw [hputEsp] at hpushed
    exact hpushed
  refine ⟨{ put with esp := 0x9E000 - 4 }, after, ?_, ?_⟩
  · rw [start, exec_bind, htables, Option.bind_some]
    dsimp only
    rw [exec_bind, hstos, Option.bind_some, exec_bind]
    dsimp only
    rw [hinit, Option.bind_some]
    dsimp only
    rw [exec_bind, hputs, Option.bind_some]
    exact hpush
  · constructor
    · exact (by decide : (0x9E000 : Word) - 4 = 0x9DFFC)
    · exact Memory.load32_store32 sent.memory (0x9E000 - 4) image.hang
    · exact hafter.segments.trans hcleared.segments
    · exact hafter.gdtr.trans hcleared.gdtr
    · exact hcleared.entries hafter h
    · exact hafter.cr0.trans hcleared.cr0
    · exact hafter.interrupts.trans hcleared.interrupts
    · exact hafter.systemControl.trans hcleared.systemControl
    · intro target hlow hhigh
      exact (hafter.memory target (by omega)).trans (hcleared.bss target hlow hhigh)
    · intro target houtside hstack
      unfold OnStack at hstack
      exact (hafter.memory target (by omega)).trans (hcleared.memory target houtside (by omega))
    · refine ⟨rest, empty, ?_, hrestAfter, hshort⟩
      calc after.uart
          = serial.uart.send (kernelText ++ rest) empty := hputUart
        _ = (initialised cleared.uart).send (kernelText ++ rest) empty := by rw [hinitUart]
        _ = (initialised machine.uart).send (kernelText ++ rest) empty := by rw [hcleared.uart]

/-! ## The switch to protected mode -/

/-- Stage 2 in real mode, with the kernel loaded and nobody at the reset line. -/
structure Prepared (image : StartImage) (machine : Machine) : Prop where
  ds : machine.segments .ds = ⟨0x0500, 0x5000, 0xFFFF⟩
  reset : machine.systemControl.getLsbD 0 = false
  table : Machine.tableAt machine.memory (0x5000 + image.gdtDescriptor) false = ⟨23, image.gdtStart⟩
  code : load64 machine.memory (image.gdtStart + 8) = kernelGdt 1
  data : load64 machine.memory (image.gdtStart + 16) = kernelGdt 2
  kernel : KernelAt image machine.memory

/-- The machine as `jump_to_kernel` leaves it to the kernel. -/
def entered (image : StartImage) (machine : Machine) : Machine where
  memory := ((marked (marked machine.memory (image.gdtStart + 8)) (image.gdtStart + 16)).store8
    0xB8000 0x50).store8 0xB8001 0x0F
  segments := flatSegments
  gdtr := ⟨23, image.gdtStart⟩
  cr0 := machine.cr0 ||| 0x01
  interrupts := false
  systemControl := machine.systemControl ||| 0x02
  uart := machine.uart
  reads := machine.reads

theorem mode_entered (image : StartImage) (machine : Machine) :
    (entered image machine).cr0.getLsbD 0 = true := by
  have hbit : (0x01 : Word).getLsbD 0 = true := by decide
  change (machine.cr0 ||| 0x01).getLsbD 0 = true
  rw [BitVec.getLsbD_or, hbit, Bool.or_true]

theorem exec_jumpToKernel (h : Prepared image machine) :
    exec (handle status) (jumpToKernel image) machine = some (0x9F000, entered image machine) := by
  let opened : Machine := { machine with interrupts := false, systemControl := machine.systemControl ||| 0x02 }
  let tabled : Machine := { opened with gdtr := ⟨23, image.gdtStart⟩ }
  let switched : Machine := { tabled with cr0 := machine.cr0 ||| 0x01 }
  have hdescriptor := image.descriptor_le
  have hquiet : ¬ (machine.systemControl ||| 0x02).getLsbD 0 = true := by
    rw [BitVec.getLsbD_or, h.reset]
    decide
  have hout : exec (handle status) (outb 0x92 (machine.systemControl ||| 0x02))
      { machine with interrupts := false } = some ((), opened) := by
    refine (Option.bind_fun_some _).trans ?_
    change Machine.outb 0x92 _ _ = _
    rw [Machine.outb, if_pos rfl, if_neg hquiet]
  have hlgdt : exec (handle status) (lgdt .ds image.gdtDescriptor false) opened = some ((), tabled) := by
    have hinside : image.gdtDescriptor.toNat + 6 ≤ 0xFFFF + 1 := by omega
    have hlocate : (⟨0x0500, 0x5000, 0xFFFF⟩ : Segment).locate image.gdtDescriptor 6 =
        some (0x5000 + image.gdtDescriptor) :=
      if_pos hinside
    refine (Option.bind_fun_some _).trans ?_
    change Machine.lgdt .ds image.gdtDescriptor false opened = _
    unfold Machine.lgdt
    rw [show opened.segments .ds = ⟨0x0500, 0x5000, 0xFFFF⟩ from h.ds, hlocate, Option.map_some]
    exact congrArg (fun table ↦ some ((), { opened with gdtr := table })) h.table
  have hdescribed : Described switched :=
    ⟨mode_entered image machine, (by decide : 23 ≤ (23 : BitVec 16).toNat),
      congrArg (· ||| accessedBit) h.code, congrArg (· ||| accessedBit) h.data⟩
  let coded := switched.withDescriptor .cs flatCode (image.gdtStart + 8)
  have hcode : exec (handle status) (loadSegment .cs 0x08) switched = some ((), coded) := exec_loadCode hdescribed
  have hcoded : Described coded := hdescribed.withDescriptor .cs flatCode (.inl rfl)
  let loaded : Machine := { switched with
    memory := marked (marked machine.memory (image.gdtStart + 8)) (image.gdtStart + 16)
    segments := flatSegments }
  have hloaded : Flat loaded := fun name hname ↦ if_neg hname
  have hsegments : withData coded = loaded := by
    have hnames : (withData coded).segments = flatSegments := by
      funext name
      cases name <;> rfl
    exact congrArg (fun segments ↦ { loaded with segments := segments }) hnames
  have hcli : exec (handle status) cli machine = some ((), { machine with interrupts := false }) := rfl
  have hin : exec (handle status) (inb 0x92) { machine with interrupts := false } =
      some (machine.systemControl, { machine with interrupts := false }) :=
    rfl
  have hread : exec (handle status) readCr0 tabled = some (machine.cr0, tabled) := rfl
  have hwrite : exec (handle status) (writeCr0 (machine.cr0 ||| 0x01)) tabled = some ((), switched) := rfl
  rw [jumpToKernel, exec_bind, hcli, Option.bind_some, exec_bind, hin, Option.bind_some, exec_bind]
  dsimp only
  rw [hout, Option.bind_some, exec_bind]
  dsimp only
  rw [hlgdt, Option.bind_some, exec_bind]
  dsimp only
  rw [hread, Option.bind_some, exec_bind]
  dsimp only
  rw [hwrite, Option.bind_some, exec_bind]
  dsimp only
  rw [hcode, Option.bind_some, exec_bind]
  dsimp only
  rw [exec_loadData hcoded, Option.bind_some, hsegments, exec_bind]
  dsimp only
  rw [exec_store hloaded (by decide), Option.bind_some, exec_bind]
  dsimp only
  have hshown : Flat { loaded with memory := loaded.memory.store8 0xB8000 0x50 } := hloaded
  rw [exec_store hshown (by decide)]
  rfl

theorem KernelAt.entered (h : KernelAt image machine.memory) : KernelAt image (entered image machine).memory := by
  have hlt := image.bss_lt
  have hbss := image.bss_le
  have htable := image.gdtStart_le
  apply h.congr
  intro target hlow hhigh
  have hfirst : target ≠ 0xB8000 := by bv_omega
  have hsecond : target ≠ 0xB8001 := by bv_omega
  calc (Start.entered image machine).memory target
      = marked (marked machine.memory (image.gdtStart + 8)) (image.gdtStart + 16) target :=
        (Memory.store8_of_ne hsecond).trans (Memory.store8_of_ne hfirst)
    _ = marked machine.memory (image.gdtStart + 8) target := Arch.marked_of_ne (by bv_omega)
    _ = machine.memory target := Arch.marked_of_ne (by bv_omega)

end Kernel

/-- From stage 2 to `kmain`: whatever the processor and the serial port were, the kernel's descriptor table is in
use, `.bss` is zero, the rest of the memory is as it was loaded but for two cells of the screen, the stacks and
the accessed bits of the two segments in both tables, and the serial port has sent the message with all the
bytes behind it up to the first zero, which comes at the start of `.bss` at the latest. -/
theorem kernel_entry_ready {status : ℕ → Byte} {patience : ℕ} {image : StartImage} {machine : Machine}
    (h : Prepared image machine) (hstatus : Answers status patience) (regs : Registers) :
    ∃ inner after,
      exec (handle status) (do
        let esp ← jumpToKernel image
        start image patience { regs with esp := esp }) machine = some (inner, after) ∧
      Started image (entered image machine) inner after := by
  have hflat : Flat (entered image machine) := fun name hname ↦ if_neg hname
  obtain ⟨inner, after, hexec, hstarted⟩ := @exec_start status patience image (entered image machine)
    { regs with esp := 0x9F000 } hflat (mode_entered image machine) h.kernel.entered hstatus rfl
  refine ⟨inner, after, ?_, hstarted⟩
  rw [exec_bind, exec_jumpToKernel h, Option.bind_some]
  exact hexec

/-- The addresses of a small kernel. -/
def sampleImage : StartImage where
  gdtDescriptor := 0x100
  gdtStart := 0x5200
  kernelGdtr := 0x9100
  kernelGdt := 0x9200
  msgKernel := 0x9300
  bssStart := 0xA000
  bssEnd := 0xB000
  afterGdtFlush := 0x900B
  afterSerialInit := 0x9040
  afterSerialPutc := 0x90C0
  afterSerialPuts := 0x904A
  hang := 0x904F
  descriptor_le := by decide
  gdtStart_ge := by decide
  gdtStart_le := by decide
  gdtr_ge := by decide
  gdtr_le := by decide
  gdt_ge := by decide
  gdt_le := by decide
  msg_ge := by decide
  msg_le := by decide
  msg_apart := by decide
  bss_lt := by decide
  bss_le := by decide

/-- A byte of a descriptor table. -/
def tableByte (offset : ℕ) : Byte :=
  let quads : List (BitVec 64) :=
    [0, 0x00CF9A000000FFFF, 0x00CF92000000FFFF, 0x00CFFA000000FFFF, 0x00CFF2000000FFFF]
  (quads.getD (offset / 8) 0).extractLsb' (8 * (offset % 8)) 8

/-- The two tables, and the message with another character behind it. -/
def sampleMemory : Memory := fun target ↦
  if target.toNat = 0x5100 then 23
  else if target.toNat = 0x5103 then 0x52
  else if target.toNat = 0x9100 then 39
  else if target.toNat = 0x9103 then 0x92
  else if 0x5200 ≤ target.toNat ∧ target.toNat < 0x5228 then tableByte (target.toNat - 0x5200)
  else if 0x9200 ≤ target.toNat ∧ target.toNat < 0x9228 then tableByte (target.toNat - 0x9200)
  else if 0x9300 ≤ target.toNat then (kernelText ++ [0x41]).getD (target.toNat - 0x9300) 0
  else 0

def sampleMachine : Machine where
  memory := sampleMemory
  segments := fun _ ↦ ⟨0x0500, 0x5000, 0xFFFF⟩
  gdtr := ⟨0, 0⟩
  cr0 := 0x10
  interrupts := true
  systemControl := 0
  uart := ⟨0, 0, 0, 0, 0, 0, false, []⟩
  reads := 0

theorem prepared_sampleMachine : Prepared sampleImage sampleMachine where
  ds := rfl
  reset := by decide
  table := by
    have hlimit : sampleMemory (0x5100 + 1) ++ sampleMemory 0x5100 = (23 : BitVec 16) := by decide
    have hbase : sampleMemory.load32 (0x5100 + 2) &&& 0xFFFFFF = 0x5200 := by decide
    exact congrArg₂ Arch.TableRegister.mk hlimit hbase
  code := by decide
  data := by decide
  kernel :=
    { table := by
        have hlimit : sampleMemory (0x9100 + 1) ++ sampleMemory 0x9100 = (39 : BitVec 16) := by decide
        have hbase : sampleMemory.load32 (0x9100 + 2) = 0x9200 := by decide
        exact congrArg₂ Arch.TableRegister.mk hlimit hbase
      entries := by decide
      message := by decide }

def sampleRegisters : Registers := ⟨.ofWord 0, .ofWord 0, 0, 0⟩

/-- The character behind the message is sent with it. -/
theorem kernel_entry_ready_longer_message : ∃ inner after,
    exec (handle fun _ ↦ 0x20) (do
      let esp ← jumpToKernel sampleImage
      start sampleImage 1 { sampleRegisters with esp := esp }) sampleMachine = some (inner, after) ∧
      after.uart.sent = kernelText ++ [0x41] ∧ after.memory 0xA000 = 0 := by
  have hstatus : Answers (fun _ ↦ 0x20) 1 :=
    fun _ ↦ ⟨0, by decide, (by decide : (0x20 : Byte).getLsbD 5 = true)⟩
  obtain ⟨inner, after, hexec, hstarted⟩ :=
    kernel_entry_ready prepared_sampleMachine hstatus sampleRegisters
  obtain ⟨rest, empty, huart, hrest, -⟩ := hstarted.sent
  have hkept : ∀ target : Word, target.toNat < 0xA000 →
      after.memory target = tableInUse sampleImage (entered sampleImage sampleMachine).memory target := by
    intro target htarget
    apply hstarted.memory target
    · intro hinside
      exact absurd htarget (Nat.not_lt.mpr hinside.1)
    · unfold OnStack
      omega
  have hshort : TextFrom after.memory (fun esi ↦ esi + 1) (sampleImage.msgKernel + 17) [0x41] := by
    refine ⟨by decide, ?_, ?_⟩
    · exact (hkept 0x9311 (by decide)).trans (by decide)
    · exact (hkept 0x9312 (by decide)).trans (by decide)
  refine ⟨inner, after, hexec, ?_, hstarted.bss 0xA000 (by decide) (by decide)⟩
  rw [huart, hshort.unique hrest]
  rfl

end NeilOS.Start
