import NeilOS.Foundation.Access

/-!
# The kernel heap allocator

`kmalloc.c` keeps its block list inside the heap it manages. A block is a `block_t` header,
`size` at offset 0, `free` at offset 4 and `next` at offset 8, padded to `headerSize` bytes and
followed by the payload. The functions below perform the loads and stores of the source in the
order of the source, over byte-addressed memory and with 32-bit wrapping arithmetic.

The list walks are bounded by `walkBound`; running past it is `diverge`. The static variable
`head` is an argument, since only `kmalloc_init` assigns it.
-/

namespace NeilOS.Kmalloc

open Foundation MemoryProgram

/-- `ALIGN8`. -/
def align8 (size : Word) : Word := (size + 7) &&& ~~~7

/-- `HEAP_SIZE`. -/
def heapSize : Word := 1024 * 1024

/-- `HEADER_SIZE`: `sizeof(block_t)` is 12 on the 32-bit target. -/
def headerSize : Word := align8 12

/-- `__heap_start` of the linker script. -/
def heap : Word := 0x100000

/-- A walk visits each block once, and the heap holds at most `HEAP_SIZE / HEADER_SIZE` blocks. -/
def walkBound : ℕ := 65536 + 1

def readSize (block : Word) : MemoryProgram Word := read32 block

def readFree (block : Word) : MemoryProgram Bool := do
  let flag ← read8 (block + 4)
  return flag != 0

def readNext (block : Word) : MemoryProgram Word := read32 (block + 8)

def writeSize (block size : Word) : MemoryProgram Unit := write32 block size

def writeFree (block : Word) (free : Bool) : MemoryProgram Unit :=
  write8 (block + 4) (if free then 1 else 0)

def writeNext (block next : Word) : MemoryProgram Unit := write32 (block + 8) next

/-- Returns the value assigned to `head`. -/
def kmallocInit : MemoryProgram Word := do
  let head := heap
  writeSize head (heapSize - headerSize)
  writeFree head true
  writeNext head 0
  return head

/-- The part of the loop body that runs once a block is found. -/
def kmallocTake (ptr size : Word) : MemoryProgram Word := do
  if size + headerSize + 8 ≤ (← readSize ptr) then
    let split := ptr + headerSize + size
    writeSize split ((← readSize ptr) - size - headerSize)
    writeFree split true
    writeNext split (← readNext ptr)
    writeSize ptr size
    writeNext ptr split
  writeFree ptr false
  return ptr + headerSize

/-- `for (block_t* ptr = head; ptr != NULL; ptr = ptr->next)` in `kmalloc`. -/
def kmallocLoop (size : Word) : ℕ → Word → MemoryProgram Word
  | 0, _ => .diverge
  | fuel + 1, ptr =>
      if ptr = 0 then return 0
      else do
        let free ← readFree ptr
        let blockSize ← readSize ptr
        if !free || blockSize < size then
          let next ← readNext ptr
          kmallocLoop size fuel next
        else kmallocTake ptr size

def kmalloc (head size : Word) : MemoryProgram Word :=
  if size = 0 then return 0
  else kmallocLoop (align8 size) walkBound head

/-- The inner `while` of `kfree`. -/
def kfreeMerge : ℕ → Word → MemoryProgram Unit
  | 0, _ => .diverge
  | fuel + 1, cur => do
      let free ← readFree cur
      let next ← readNext cur
      if !free || next = 0 then return ()
      else
        let nextFree ← readFree next
        if !nextFree then return ()
        else
          writeSize cur ((← readSize cur) + (headerSize + (← readSize next)))
          writeNext cur (← readNext next)
          kfreeMerge fuel cur

/-- The outer `for` of `kfree`. -/
def kfreeLoop : ℕ → Word → MemoryProgram Unit
  | 0, _ => .diverge
  | fuel + 1, cur =>
      if cur = 0 then return ()
      else do
        kfreeMerge walkBound cur
        let next ← readNext cur
        kfreeLoop fuel next

def kfree (head ptr : Word) : MemoryProgram Unit :=
  if ptr = 0 then return ()
  else do
    writeFree (ptr - headerSize) true
    kfreeLoop walkBound head

end NeilOS.Kmalloc
