import NeilOS.Foundation.Memory
import NeilOS.Foundation.Sweep

/-!
# The descriptor tables

`idt_init` fills the interrupt descriptor table with packed entries, and `gdt.asm` lays down the segment
descriptors that the entries refer to. The processor reads both as quadwords and decodes them; what it
finds behind a vector is the stub that `idt_init` put there.
-/

namespace NeilOS.Arch

open Foundation

/-! ## The interrupt descriptor table -/

/-- `struct idt_entry`. -/
structure IdtEntry where
  offsetLow : BitVec 16
  selector : BitVec 16
  zero : Byte
  typeAttr : Byte
  offsetHigh : BitVec 16

/-- The packed entry, its first byte lowest. -/
def IdtEntry.quad (entry : IdtEntry) : BitVec 64 :=
  entry.offsetHigh ++ entry.typeAttr ++ entry.zero ++ entry.selector ++ entry.offsetLow

/-- `IDT_ENTRIES` entries. -/
abbrev Idt := Fin 256 → IdtEntry

def gateOf (handler : Word) : IdtEntry where
  offsetLow := (handler &&& 0xFFFF).setWidth 16
  selector := 0x08
  zero := 0
  typeAttr := 0x8E
  offsetHigh := ((handler >>> 16) &&& 0xFFFF).setWidth 16

def idtSetGate (n : Fin 256) (handler : Word) (idt : Idt) : Idt :=
  Function.update idt n (gateOf handler)

def emptyEntry : IdtEntry := ⟨0, 0, 0, 0, 0⟩

def vector (number : ℕ) : Fin 256 := ⟨number % 256, Nat.mod_lt number (by decide)⟩

/-- The vectors of the calls of `idt_set_gate`, in their order. -/
def installed : List (Fin 256) := (List.range 48 ++ [49, 50]).map vector

/-- `isr` gives the addresses of the stubs `isr0`, `isr1`, and so on. -/
def idtInit (isr : Fin 256 → Word) (idt : Idt) : Idt :=
  let cleared := (List.finRange 256).foldl (fun idt i ↦ Function.update idt i emptyEntry) idt
  installed.foldl (fun idt n ↦ idtSetGate n (isr n) idt) cleared

theorem idtInit_apply (isr : Fin 256 → Word) (idt : Idt) (number : Fin 256) :
    idtInit isr idt number = if installed.contains number then gateOf (isr number) else emptyEntry := by
  calc idtInit isr idt number
      = if number ∈ installed then gateOf (isr number)
        else (List.finRange 256).foldl (fun idt i ↦ Function.update idt i emptyEntry) idt number :=
        foldl_update (fun n ↦ gateOf (isr n)) installed _ number
    _ = if number ∈ installed then gateOf (isr number) else emptyEntry := by
        rw [foldl_update (fun _ ↦ emptyEntry), if_pos (List.mem_finRange number)]
    _ = if installed.contains number then gateOf (isr number) else emptyEntry :=
        if_congr List.contains_iff_mem.symm rfl rfl

theorem contains_installed (number : Fin 256) :
    installed.contains number = true ↔ number.val < 48 ∨ number.val = 49 ∨ number.val = 50 := by
  have hlt := number.isLt
  simp only [List.contains_iff_mem, installed, List.map_append, List.mem_append, List.mem_map, List.mem_range, List.map_cons,
    List.map_nil, List.mem_cons, List.not_mem_nil, or_false, Fin.ext_iff]
  constructor
  · rintro (⟨value, hvalue, heq⟩ | heq | heq)
    · exact .inl (by change value % 256 = _ at heq; omega)
    · exact .inr (.inl heq)
    · exact .inr (.inr heq)
  · rintro (hlow | heq | heq)
    · exact .inl ⟨number.val, hlow, Nat.mod_eq_of_lt hlt⟩
    · exact .inr (.inl heq)
    · exact .inr (.inr heq)

/-! ## What the processor reads -/

/-- A gate of the interrupt descriptor table. -/
structure Gate where
  offset : Word
  selector : BitVec 16
  attributes : Byte

def Gate.decode (quad : BitVec 64) : Gate where
  offset := quad.extractLsb' 48 16 ++ quad.extractLsb' 0 16
  selector := quad.extractLsb' 16 16
  attributes := quad.extractLsb' 40 8

theorem decode_quad (entry : IdtEntry) :
    Gate.decode entry.quad = ⟨entry.offsetHigh ++ entry.offsetLow, entry.selector, entry.typeAttr⟩ := by
  simp (disch := omega) only [Gate.decode, IdtEntry.quad, BitVec.extractLsb'_append_eq_of_le,
    BitVec.extractLsb'_append_eq_of_add_le, Nat.reduceSub, BitVec.extractLsb'_eq_self]

/-- The address that is cut into two halves comes out whole. -/
theorem decode_gateOf (handler : Word) :
    Gate.decode (gateOf handler).quad = ⟨handler, 0x08, 0x8E⟩ := by
  have hoffset : (gateOf handler).offsetHigh ++ (gateOf handler).offsetLow = handler := by
    calc (gateOf handler).offsetHigh ++ (gateOf handler).offsetLow
        = handler.setWidth 32 := Word.append_halves handler 16
      _ = handler := BitVec.setWidth_eq handler
  rw [decode_quad, hoffset]
  rfl

/-- A segment descriptor. -/
structure Descriptor where
  base : Word
  limit : BitVec 20
  access : Byte
  flags : BitVec 4
deriving DecidableEq

def Descriptor.decode (quad : BitVec 64) : Descriptor where
  base := quad.extractLsb' 56 8 ++ quad.extractLsb' 16 24
  limit := quad.extractLsb' 48 4 ++ quad.extractLsb' 0 16
  access := quad.extractLsb' 40 8
  flags := quad.extractLsb' 52 4

/-- `kernel_gdt`: null, kernel code, kernel data, user code, user data. -/
def kernelGdt : Fin 5 → BitVec 64
  | 0 => 0
  | 1 => 0x00CF9A000000FFFF
  | 2 => 0x00CF92000000FFFF
  | 3 => 0x00CFFA000000FFFF
  | 4 => 0x00CFF2000000FFFF

/-- The accessed bit of a descriptor. The processor sets it in memory when it loads the segment. -/
def accessedBit : BitVec 64 := 0x0000010000000000

theorem decode_or (quad : BitVec 64) :
    Descriptor.decode (quad ||| accessedBit) =
      { Descriptor.decode quad with access := (Descriptor.decode quad).access ||| 1 } := by
  have hbase : accessedBit.extractLsb' 56 8 = 0 ∧ accessedBit.extractLsb' 16 24 = 0 := by decide
  have hlimit : accessedBit.extractLsb' 48 4 = 0 ∧ accessedBit.extractLsb' 0 16 = 0 := by decide
  have hflags : accessedBit.extractLsb' 52 4 = 0 := by decide
  have haccess : accessedBit.extractLsb' 40 8 = 1 := by decide
  simp only [Descriptor.decode, BitVec.extractLsb'_or, hbase, hlimit, hflags, haccess]
  simp

/-- Behind the selector `0x08` is a code segment of level 0, whether it has been accessed or not. -/
theorem access_kernelCode {quad : BitVec 64} (h : quad ||| accessedBit = kernelGdt 1 ||| accessedBit) :
    (Descriptor.decode quad).access &&& 0x78 = 0x18 ∧
      (Descriptor.decode quad).access.getLsbD 7 = true := by
  have haccess : (Descriptor.decode quad).access ||| 1 = 0x9B :=
    calc (Descriptor.decode quad).access ||| 1
        = (Descriptor.decode (quad ||| accessedBit)).access :=
          (congrArg Descriptor.access (decode_or quad)).symm
      _ = (Descriptor.decode (kernelGdt 1 ||| accessedBit)).access := by rw [h]
      _ = 0x9B := by decide
  generalize (Descriptor.decode quad).access = access at haccess ⊢
  revert access
  decide

/-- The operand of `lidt` and `lgdt`. -/
structure TableRegister where
  limit : BitVec 16
  base : Word

/-- A quadword of memory. -/
def load64 (memory : Memory) (address : Word) : BitVec 64 :=
  memory.load32 (address + 4) ++ memory.load32 address

theorem load64_of_bytes {memory : Memory} {address : Word} {quad : BitVec 64}
    (h : ∀ index < 8, memory (address + .ofNat 32 index) = quad.extractLsb' (8 * index) 8) :
    load64 memory address = quad := by
  have hlow : memory.load32 address = quad.extractLsb' 0 32 := by
    apply Memory.load32_of_bytes
    intro index hindex
    rw [h index (by omega), Nat.zero_add]
  have hhigh : memory.load32 (address + 4) = quad.extractLsb' 32 32 := by
    apply Memory.load32_of_bytes
    intro index hindex
    have haddress : address + 4 + .ofNat 32 index = address + .ofNat 32 (4 + index) := by
      rw [BitVec.ofNat_add, ← BitVec.add_assoc]
      rfl
    have hstart : 32 + 8 * index = 8 * (4 + index) := by omega
    rw [haddress, h (4 + index) (by omega), hstart]
  calc load64 memory address
      = quad.extractLsb' 32 32 ++ quad.extractLsb' 0 32 := by rw [load64, hlow, hhigh]
    _ = quad.extractLsb' 0 64 := BitVec.extractLsb'_append_extractLsb'_eq_extractLsb' rfl
    _ = quad := BitVec.extractLsb'_eq_self

/-- The registers and the tables in memory after `idt_init` and `gdt_flush`; the accessed bits of the segment
descriptors are left open. -/
structure Loaded (isr : Fin 256 → Word) (idtr gdtr : TableRegister) (memory : Memory) : Prop where
  idtLimit : idtr.limit = 256 * 8 - 1
  gdtLimit : gdtr.limit = 5 * 8 - 1
  idt : ∃ before, ∀ number : Fin 256,
    load64 memory (idtr.base + 8 * .ofNat 32 number.val) = (idtInit isr before number).quad
  gdt : ∀ index : Fin 5,
    load64 memory (gdtr.base + 8 * .ofNat 32 index.val) ||| accessedBit = kernelGdt index ||| accessedBit

theorem load64_congr {first second : Memory} {address : Word}
    (h : ∀ target : Word, (target - address).toNat < 8 → first target = second target) :
    load64 first address = load64 second address := by
  have hlow : first.load32 address = second.load32 address :=
    Memory.load32_congr fun target htarget ↦ h target (by omega)
  have hhigh : first.load32 (address + 4) = second.load32 (address + 4) :=
    Memory.load32_congr fun target htarget ↦ h target (by bv_omega)
  rw [load64, load64, hlow, hhigh]

/-- The memory with the accessed bit of a descriptor set. -/
def marked (memory : Memory) (descriptor : Word) : Memory :=
  memory.store8 (descriptor + 5) (memory (descriptor + 5) ||| 1)

theorem marked_of_ne {memory : Memory} {descriptor target : Word} (h : target ≠ descriptor + 5) :
    marked memory descriptor target = memory target :=
  Memory.store8_of_ne h

theorem marked_congr {memory other : Memory} {descriptor target : Word} (h : other target = memory target) :
    marked other descriptor target = marked memory descriptor target := by
  by_cases hbyte : target = descriptor + 5
  · subst hbyte
    rw [marked, marked, Memory.store8_same, Memory.store8_same, h]
  · rw [marked_of_ne hbyte, marked_of_ne hbyte, h]

/-- A bit that is set stays set. -/
theorem marked_of_set {memory : Memory} {descriptor : Word}
    (h : memory (descriptor + 5) ||| 1 = memory (descriptor + 5)) : marked memory descriptor = memory := by
  rw [marked, h]
  exact Function.update_eq_self _ _

theorem marked_marked (memory : Memory) (descriptor : Word) :
    marked (marked memory descriptor) descriptor = marked memory descriptor := by
  apply marked_of_set
  have hbyte : marked memory descriptor (descriptor + 5) = memory (descriptor + 5) ||| 1 :=
    Memory.store8_same ..
  rw [hbyte, BitVec.or_assoc, BitVec.or_self]

theorem load64_marked (memory : Memory) (descriptor : Word) :
    load64 (marked memory descriptor) descriptor = load64 memory descriptor ||| accessedBit := by
  have hbit : accessedBit = 0#8 ++ 0#8 ++ 1#8 ++ 0#8 ++ 0#32 := by decide
  have hlow : (marked memory descriptor).load32 descriptor = memory.load32 descriptor :=
    Memory.load32_congr fun target htarget ↦ marked_of_ne (by bv_omega)
  have hfourth : marked memory descriptor (descriptor + 4) = memory (descriptor + 4) :=
    marked_of_ne (by bv_omega)
  have hfifth : marked memory descriptor (descriptor + 4 + 1) = memory (descriptor + 4 + 1) ||| 1 := by
    have haddress : descriptor + 4 + 1 = descriptor + 5 := BitVec.add_assoc _ _ _
    rw [haddress]
    exact Memory.store8_same ..
  have hsixth : marked memory descriptor (descriptor + 4 + 2) = memory (descriptor + 4 + 2) :=
    marked_of_ne (by bv_omega)
  have hseventh : marked memory descriptor (descriptor + 4 + 3) = memory (descriptor + 4 + 3) :=
    marked_of_ne (by bv_omega)
  have hhigh : (marked memory descriptor).load32 (descriptor + 4) =
      memory.load32 (descriptor + 4) ||| (0#8 ++ 0#8 ++ 1#8 ++ 0#8) := by
    rw [Memory.load32, Memory.load32, hfourth, hfifth, hsixth, hseventh, BitVec.or_append, BitVec.or_append,
      BitVec.or_append, BitVec.or_zero, BitVec.or_zero, BitVec.or_zero]
    rfl
  rw [load64, load64, hlow, hhigh, hbit, BitVec.or_append, BitVec.or_zero]

/-- Up to the accessed bit, every descriptor of a table stays as it is. -/
theorem load64_marked_or {memory : Memory} {descriptor other : Word}
    (h : other = descriptor ∨ 8 ≤ (descriptor + 5 - other).toNat) :
    load64 (marked memory descriptor) other ||| accessedBit = load64 memory other ||| accessedBit := by
  rcases h with rfl | hapart
  · rw [load64_marked, BitVec.or_assoc, BitVec.or_self]
  · exact congrArg (· ||| accessedBit) (load64_congr fun target htarget ↦ marked_of_ne (by bv_omega))

/-- The bytes of the tables are all that counts. -/
theorem Loaded.congr {isr : Fin 256 → Word} {idtr gdtr : TableRegister} {memory other : Memory}
    (h : Loaded isr idtr gdtr memory)
    (hidt : ∀ target : Word, (target - idtr.base).toNat < 2048 → other target = memory target)
    (hgdt : ∀ target : Word, (target - gdtr.base).toNat < 40 → other target = memory target) :
    Loaded isr idtr gdtr other where
  idtLimit := h.idtLimit
  gdtLimit := h.gdtLimit
  idt := by
    obtain ⟨before, hentries⟩ := h.idt
    refine ⟨before, fun number ↦ ?_⟩
    have hlt := number.isLt
    rw [← hentries number]
    exact load64_congr fun target htarget ↦ hidt target (by bv_omega)
  gdt := by
    intro index
    have hlt := index.isLt
    rw [← h.gdt index]
    exact congrArg (· ||| accessedBit) (load64_congr fun target htarget ↦ hgdt target (by bv_omega))

/-- The two tables in an otherwise unknown memory. -/
def tablesAt (isr : Fin 256 → Word) (idt gdt : Word) : Memory := fun address ↦
  let quad :=
    if (address - idt).toNat < 2048 then
      (idtInit isr (fun _ ↦ emptyEntry) (vector ((address - idt).toNat / 8))).quad
    else kernelGdt (Fin.ofNat 5 ((address - gdt).toNat / 8))
  quad.extractLsb' (8 * ((if (address - idt).toNat < 2048 then address - idt else address - gdt).toNat % 8)) 8

theorem loaded_tablesAt (isr : Fin 256 → Word) {idt gdt : Word} (hlow : 2048 ≤ (gdt - idt).toNat)
    (hhigh : (gdt - idt).toNat + 40 ≤ 2 ^ 32) :
    Loaded isr ⟨2047, idt⟩ ⟨39, gdt⟩ (tablesAt isr idt gdt) where
  idtLimit := rfl
  gdtLimit := rfl
  idt := by
    refine ⟨fun _ ↦ emptyEntry, fun number ↦ load64_of_bytes fun index hindex ↦ ?_⟩
    have hlt := number.isLt
    have hoffset : (idt + 8 * .ofNat 32 number.val + .ofNat 32 index - idt).toNat =
        8 * number.val + index := by
      bv_omega
    have hquotient : (8 * number.val + index) / 8 = number.val := by omega
    have hremainder : (8 * number.val + index) % 8 = index := by omega
    have hnumber : vector number.val = number := Fin.ext (Nat.mod_eq_of_lt hlt)
    have hinside : 8 * number.val + index < 2048 := by omega
    rw [tablesAt, hoffset, if_pos hinside, if_pos hinside, hoffset, hquotient, hremainder, hnumber]
  gdt := by
    intro entry
    refine congrArg (· ||| accessedBit) (load64_of_bytes fun index hindex ↦ ?_)
    have hlt := entry.isLt
    have houtside : ¬ (gdt + 8 * .ofNat 32 entry.val + .ofNat 32 index - idt).toNat < 2048 := by bv_omega
    have hoffset : (gdt + 8 * .ofNat 32 entry.val + .ofNat 32 index - gdt).toNat =
        8 * entry.val + index := by
      bv_omega
    have hquotient : (8 * entry.val + index) / 8 = entry.val := by omega
    have hremainder : (8 * entry.val + index) % 8 = index := by omega
    have hentry : Fin.ofNat 5 entry.val = entry := Fin.ext (Nat.mod_eq_of_lt hlt)
    rw [tablesAt, if_neg houtside, if_neg houtside, hoffset, hquotient, hremainder, hentry]

end NeilOS.Arch
