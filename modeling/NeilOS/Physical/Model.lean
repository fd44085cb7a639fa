import NeilOS.Foundation.Bitmap
import NeilOS.Foundation.Word

/-!
# The physical page allocator

`physical.c` keeps one bit per 4 KiB page of the first 64 MiB, set while the page is in use, and a
separate count of free pages. Page numbers are natural numbers below `physicalPageCount`;
addresses and the counter are 32-bit words with the wrap-around of `uint32_t`.
-/

namespace NeilOS

open Foundation

/-- What the linker script fixes about the kernel image `[0x9000, __kernel_end)`. -/
structure Image where
  kernelEnd : Word
  start_le : 0x9000 ≤ kernelEnd.toNat
  le_stack : kernelEnd.toNat ≤ 0x98000

/-- The static variables of `physical.c`. -/
structure Physical where
  pageBitMap : Bitmap 32
  freePages : Word

namespace Physical

/-- `PHYSICAL_PAGE_COUNT`. -/
def physicalPageCount : ℕ := 64 * 1024 * 1024 / 4096

/-- `BITMAP_WORD_COUNT`. -/
def bitmapWordCount : ℕ := (physicalPageCount + 31) / 32

def markUsed (page : ℕ) (state : Physical) : Physical :=
  { state with pageBitMap := state.pageBitMap.mark page }

def markFree (page : ℕ) (state : Physical) : Physical :=
  { state with pageBitMap := state.pageBitMap.clear page }

def isUsed (state : Physical) (page : ℕ) : Bool := state.pageBitMap.test page

/-- The last statement of the loop body of `reserve_range`. -/
def reservePage (page : ℕ) (state : Physical) : Physical :=
  if state.isUsed page then state
  else { state.markUsed page with freePages := state.freePages - 1 }

/-- The loop of `reserve_range`, from `address`. -/
def reserveLoop (stop address : Word) (state : Physical) : Physical :=
  if address < stop then
    if physicalPageCount ≤ address.toNat / 4096 then state
    else reserveLoop stop (address + 4096) (state.reservePage (address.toNat / 4096))
  else state
termination_by 2 ^ 32 - address.toNat
decreasing_by
  have hpage : physicalPageCount = 16384 := rfl
  bv_omega

def reserveRange (start stop : Word) (state : Physical) : Physical :=
  reserveLoop ((stop + 4096 - 1) &&& ~~~4095) (start &&& ~~~4095) state

/-- The first loop of `physical_init`. -/
def markAll (state : Physical) : Physical :=
  (List.range bitmapWordCount).foldl (fun state word ↦
    { state with pageBitMap := Function.update state.pageBitMap word 0xFFFFFFFF }) state

/-- The second loop of `physical_init`, for the first `count` pages. -/
def freeAll (count : ℕ) (state : Physical) : Physical :=
  (List.range count).foldl (fun state page ↦
    { state.markFree page with freePages := state.freePages + 1 }) state

def physicalInit (image : Image) (state : Physical) : Physical :=
  let state := { state.markAll with freePages := 0 }
  let state := state.freeAll physicalPageCount
  let state := state.reserveRange 0x00000000 0x00001000
  let state := state.reserveRange 0x00000000 0x00100000
  let state := state.reserveRange 0x9000 image.kernelEnd
  let state := state.reserveRange 0x100000 0x200000
  state.reserveRange 0x00098000 0x000A0000

def physicalAllocPage (state : Physical) : Word × Physical :=
  match (List.range' 256 (physicalPageCount - 256)).find? fun page ↦ !state.isUsed page with
  | some page =>
      (.ofNat 32 (page * 4096), { state.markUsed page with freePages := state.freePages - 1 })
  | none => (0, state)

def physicalFreePage (address : Word) (state : Physical) : Physical :=
  if address &&& 4095 ≠ 0 then state
  else
    let page := address.toNat / 4096
    if physicalPageCount ≤ page then state
    else if address < 0x00100000 then state
    else if !state.isUsed page then state
    else { state.markFree page with freePages := state.freePages + 1 }

end Physical

end NeilOS
