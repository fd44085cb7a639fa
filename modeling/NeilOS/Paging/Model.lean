import NeilOS.Foundation.Memory
import NeilOS.Foundation.Program
import NeilOS.Foundation.Radix
import NeilOS.Physical.Model

/-!
# Paging

The functions of `paging.c` are programs over word accesses, `invlpg`, the control registers, the
physical allocator and the console. How an access finds its physical word is left open: `handle`
takes the address resolution as a parameter. `direct` reads `physical_to_virtual` as direct access
to physical memory, `translate` sends every access through the current tables once paging is on.
-/

namespace NeilOS

open Foundation Program

/-- The two static tables of `paging.c`, page aligned and inside the kernel image. -/
structure PagingImage extends Image where
  pageDirectory : Word
  firstPageTable : Word
  directory_aligned : pageDirectory.toNat % 4096 = 0
  directory_ge : 0x9000 ≤ pageDirectory.toNat
  directory_le : pageDirectory.toNat + 4096 ≤ kernelEnd.toNat
  table_aligned : firstPageTable.toNat % 4096 = 0
  table_ge : 0x9000 ≤ firstPageTable.toNat
  table_le : firstPageTable.toNat + 4096 ≤ kernelEnd.toNat
  distinct : pageDirectory ≠ firstPageTable

namespace Paging

/-! ## The machine -/

structure Machine where
  memory : Memory
  physical : Physical
  cr3 : Word
  pagingEnabled : Bool

inductive PagingOp where
  | load (address : Word)
  | store (address value : Word)
  | invlpg (address : Word)
  | loadCr3 (address : Word)
  | enablePaging
  | physicalAllocPage
  | fvgaWrite (format : String) (arguments : List Word)

namespace PagingOp

def Answer : PagingOp → Type
  | load _ => Word
  | physicalAllocPage => Word
  | _ => Unit

/-- The address an operation reads or writes through the data path of the CPU. -/
def accessed : PagingOp → Option Word
  | load address => some address
  | store address _ => some address
  | _ => none

end PagingOp

/-- The operations over a given way to find the physical word of an address. -/
def handle (resolve : Machine → Word → Option Word) : Handler PagingOp PagingOp.Answer Machine
  | .load address, machine => (resolve machine address).map fun target ↦
      (machine.memory.load32 target, machine)
  | .store address value, machine => (resolve machine address).map fun target ↦
      ((), { machine with memory := machine.memory.store32 target value })
  | .invlpg _, machine => some ((), machine)
  | .loadCr3 address, machine => some ((), { machine with cr3 := address })
  | .enablePaging, machine => some ((), { machine with pagingEnabled := true })
  | .physicalAllocPage, machine =>
      some (machine.physical.physicalAllocPage.1,
        { machine with physical := machine.physical.physicalAllocPage.2 })
  | .fvgaWrite _ _, machine => some ((), machine)

/-! ## The two-level walk of the processor -/

/-- The address of `table[index]`. -/
def entry (table index : Word) : Word := table + 4 * index

def directoryPart (address : Word) : Fin 1024 := ⟨address.toNat / 2 ^ 22, by omega⟩

def tablePart (address : Word) : Fin 1024 := ⟨address.toNat / 4096 % 1024, by omega⟩

/-- The table a directory entry points to, if it is present. -/
def root (memory : Memory) (directory : Word) (index : Fin 1024) : Option Word :=
  let value := memory.load32 (entry directory (.ofNat 32 index))
  if value &&& 1 = 0 then none else some (value &&& 0xFFFFF000)

/-- A page-table entry, if it is present. -/
def slots (memory : Memory) (table : Word) (index : Fin 1024) : Option Word :=
  let value := memory.load32 (entry table (.ofNat 32 index))
  if value &&& 1 = 0 then none else some value

/-- The entry that maps a virtual address. -/
def walk (memory : Memory) (directory address : Word) : Option Word :=
  Radix.lookup (root memory directory) (slots memory) (directoryPart address, tablePart address)

def direct (_ : Machine) (address : Word) : Option Word := some address

def translate (machine : Machine) (address : Word) : Option Word :=
  if machine.pagingEnabled then
    (walk machine.memory (machine.cr3 &&& 0xFFFFF000) address).map fun value ↦
      (value &&& 0xFFFFF000) ||| (address &&& 0xFFF)
  else some address

/-! ## The source -/

abbrev PagingProgram := Program PagingOp PagingOp.Answer

def load (address : Word) : PagingProgram Word := perform (.load address) result

def store (address value : Word) : PagingProgram Unit := perform (.store address value) result

def pagingInvalidatePage (address : Word) : PagingProgram Unit := perform (.invlpg address) result

def pagingLoadCr3 (address : Word) : PagingProgram Unit := perform (.loadCr3 address) result

def pagingEnable : PagingProgram Unit := perform .enablePaging result

def physicalAllocPage : PagingProgram Word := perform .physicalAllocPage result

def fvgaWrite (format : String) (arguments : List Word) : PagingProgram Unit :=
  perform (.fvgaWrite format arguments) result

def pageDirectoryIndex (address : Word) : Word := (address >>> 22) &&& 0x3FF

def pageTableIndex (address : Word) : Word := (address >>> 12) &&& 0x3FF

def physicalToVirtual (physicalAddress : Word) : Word := physicalAddress

def pageAddressValid (address : Word) : Bool := address &&& (4096 - 1) == 0

/-- `PAGE_PRESENT`. -/
def pagePresent : Word := 1

/-- `PAGE_WRITABLE`. -/
def pageWritable : Word := 2

/-- `PAGE_USER`. -/
def pageUser : Word := 4

/-- `PAGE_ADDRESS_MASK`. -/
def pageAddressMask : Word := 0xFFFFF000

def allocatePageTable : PagingProgram Word := do
  let physicalAddress ← physicalAllocPage
  if physicalAddress = 0 then return 0
  else
    let pageTable := physicalToVirtual physicalAddress
    forRange 1024 fun index ↦ store (entry pageTable (.ofNat 32 index)) 0
    return physicalAddress

def pagingInit (image : PagingImage) : PagingProgram Unit := do
  forRange 1024 fun index ↦ store (entry image.pageDirectory (.ofNat 32 index)) 0
  forRange 1024 fun index ↦ store (entry image.firstPageTable (.ofNat 32 index))
    (.ofNat 32 index * 4096 ||| pagePresent ||| pageWritable)
  store (entry image.pageDirectory 0) (image.firstPageTable ||| pagePresent ||| pageWritable)
  pagingLoadCr3 image.pageDirectory
  pagingEnable

/-- The middle of `paging_map`: find or create the page table; `none` is the return of -2. -/
def pagingMapTable (image : PagingImage) (directoryIdx directoryEntry : Word) :
    PagingProgram (Option Word) :=
  if directoryEntry &&& pagePresent = 0 then do
    let tablePhysicalAddress ← allocatePageTable
    if tablePhysicalAddress = 0 then return none
    else
      store (entry image.pageDirectory directoryIdx)
        ((tablePhysicalAddress &&& pageAddressMask) ||| pagePresent ||| pageWritable)
      return some (physicalToVirtual tablePhysicalAddress)
  else return some (physicalToVirtual (directoryEntry &&& pageAddressMask))

/-- The end of `paging_map`: install the entry in the page table. -/
def pagingMapInstall (pageTable tableIdx virtualAddress physicalAddress flags : Word) :
    PagingProgram ℤ := do
  let existing ← load (entry pageTable tableIdx)
  if existing &&& pagePresent = 0 then
    store (entry pageTable tableIdx)
      ((physicalAddress &&& pageAddressMask) ||| (flags &&& ~~~pageAddressMask))
    let installed ← load (entry pageTable tableIdx)
    store (entry pageTable tableIdx) (installed ||| pagePresent)
    pagingInvalidatePage virtualAddress
    return 0
  else return -3

def pagingMap (image : PagingImage) (virtualAddress physicalAddress flags : Word) :
    PagingProgram ℤ := do
  fvgaWrite "paging_map: VA=%x PA=%x\n" [virtualAddress, physicalAddress]
  fvgaWrite "paging_map: VA valid=%d PA valid=%d\n"
    [(pageAddressValid virtualAddress).toNat, (pageAddressValid physicalAddress).toNat]
  if !pageAddressValid virtualAddress then
    fvgaWrite "paging_map: INVALID VIRTUAL\n" []
    return -1
  else if !pageAddressValid physicalAddress then
    fvgaWrite "paging_map: INVALID PHYSICAL\n" []
    return -1
  else if !pageAddressValid virtualAddress || !pageAddressValid physicalAddress then return -1
  else
    let directoryIdx := pageDirectoryIndex virtualAddress
    let tableIdx := pageTableIndex virtualAddress
    let directoryEntry ← load (entry image.pageDirectory directoryIdx)
    match ← pagingMapTable image directoryIdx directoryEntry with
    | none => return -2
    | some pageTable => pagingMapInstall pageTable tableIdx virtualAddress physicalAddress flags

def pagingUnmap (image : PagingImage) (virtualAddress : Word) : PagingProgram ℤ :=
  if !pageAddressValid virtualAddress then return -1
  else do
    let directoryIndex := pageDirectoryIndex virtualAddress
    let tableIndex := pageTableIndex virtualAddress
    let directoryEntry ← load (entry image.pageDirectory directoryIndex)
    if directoryEntry &&& pagePresent = 0 then return -2
    else
      let tablePhysicalAddress := directoryEntry &&& pageAddressMask
      let pageTable := physicalToVirtual tablePhysicalAddress
      if (← load (entry pageTable tableIndex)) &&& pagePresent = 0 then return -3
      else
        store (entry pageTable tableIndex) 0
        pagingInvalidatePage virtualAddress
        return 0

end Paging

end NeilOS
