import NeilOS.Foundation.Memory
import NeilOS.Foundation.Program

/-!
# The stage-2 loader

`stage2.c` reads a FAT12 volume through two assembly routines, `disk_get_params` and
`disk_read_sector`. Both are operations here, next to the byte loads of the C code, and the drive
decides which reads succeed and what a failing read leaves in memory. Memory is addressed linearly:
`segment * 16 + offset` for the buffer of a read, and the data segment for a pointer.

The static variables that `fat_init` assigns are a `Volume`. `current_ds` is the argument `ds`, a
register the loader does not change. The messages on the way are left out.
-/

namespace NeilOS.Loader

open Foundation

/-- The static variables that describe the volume. -/
structure Volume where
  numFats : Byte
  sectorsPerCluster : Byte
  bytesPerSector : BitVec 16
  reservedSectors : BitVec 16
  rootEntryCount : BitVec 16
  totalSectors : Word
  sectorsPerFat : Word
  rootDirSectors : Word
  firstDataSector : Word
  firstFatSector : Word
  firstRootDirSector : Word
  dataSectors : Word
  clusterCount : Word
  rootDirFirstSector : Word

inductive LoaderOp where
  | diskGetParams
  | diskReadSector (lba : Word) (segment offset : BitVec 16)
  /-- The byte at `DS:pointer`. -/
  | load (pointer : Word)

def LoaderOp.Answer : LoaderOp → Type
  | diskGetParams => ℤ
  | diskReadSector _ _ _ => ℤ
  | load _ => Byte

abbrev LoaderProgram := Program LoaderOp LoaderOp.Answer

def diskGetParams : LoaderProgram ℤ := Program.perform .diskGetParams Program.result

def diskReadSector (lba : Word) (segment offset : BitVec 16) : LoaderProgram ℤ :=
  Program.perform (.diskReadSector lba segment offset) Program.result

def load (pointer : Word) : LoaderProgram Byte := Program.perform (.load pointer) Program.result

/-! ## The machine -/

/-- The disk and the behaviour of its reads, which are numbered from the start. -/
structure Drive where
  paramsKnown : Bool
  sector : Word → ℕ → Byte
  succeeds : ℕ → Bool
  leaves : ℕ → Memory → Memory

structure Machine where
  memory : Memory
  reads : ℕ

def linearAddress (segment offset : BitVec 16) : Word :=
  segment.setWidth 32 <<< 4 + offset.setWidth 32

/-- The 512 bytes of a sector stored from `address` on. -/
def storeSector (memory : Memory) (address : Word) (sector : ℕ → Byte) : Memory := fun target ↦
  if (target - address).toNat < 512 then sector (target - address).toNat else memory target

def handle (drive : Drive) (ds : BitVec 16) : Handler LoaderOp LoaderOp.Answer Machine
  | .diskGetParams, machine => some ((if drive.paramsKnown then 0 else -1 : ℤ), machine)
  | .diskReadSector lba segment offset, machine =>
    if drive.succeeds machine.reads then
      some ((0 : ℤ),
        { memory := storeSector machine.memory (linearAddress segment offset) (drive.sector lba)
          reads := machine.reads + 1 })
    else
      some ((-1 : ℤ),
        { memory := drive.leaves machine.reads machine.memory
          reads := machine.reads + 1 })
  | .load pointer, machine =>
    some (machine.memory (linearAddress ds 0 + pointer), machine)

/-! ## Reading the boot sector -/

/-- `BOOT_SECTOR_SEG`. -/
def bootSectorSeg : Word := 0x2000

/-- `FAT_SEG`. -/
def fatSeg : Word := 0x2200

/-- `ROOT_DIR_SEG`. -/
def rootDirSeg : Word := 0x3400

/-- `KERNEL_SEG`. -/
def kernelSeg : Word := 0x4000

def readLe16 (p : Word) : LoaderProgram (BitVec 16) := do
  let low ← load p
  let high ← load (p + 1)
  return low.setWidth 16 ||| high.setWidth 16 <<< 8

def readLe32 (p : Word) : LoaderProgram Word := do
  let first ← load p
  let second ← load (p + 1)
  let third ← load (p + 2)
  let fourth ← load (p + 3)
  return first.setWidth 32 ||| second.setWidth 32 <<< 8 ||| third.setWidth 32 <<< 16 |||
    fourth.setWidth 32 <<< 24

/-- The total sector count, from the 32-bit field if the 16-bit one is zero. -/
def readTotalSectors : LoaderProgram Word := do
  let total ← readLe16 (bootSectorSeg + 19)
  if total = 0 then readLe32 (bootSectorSeg + 32) else return total.setWidth 32

/-- The assignments after the fields have been checked. -/
def derive (volume : Volume) : Volume :=
  let rootDirSectors :=
    (volume.rootEntryCount.setWidth 32 * 32 + (volume.bytesPerSector.setWidth 32 - 1)) /
      volume.bytesPerSector.setWidth 32
  let firstRootDirSector :=
    volume.reservedSectors.setWidth 32 + volume.numFats.setWidth 32 * volume.sectorsPerFat
  let firstDataSector := firstRootDirSector + rootDirSectors
  let dataSectors := volume.totalSectors - firstDataSector
  { volume with
    rootDirSectors := rootDirSectors
    firstFatSector := volume.reservedSectors.setWidth 32
    firstRootDirSector := firstRootDirSector
    rootDirFirstSector := firstRootDirSector
    firstDataSector := firstDataSector
    dataSectors := dataSectors
    clusterCount := dataSectors / volume.sectorsPerCluster.setWidth 32 }

/-- Returns the code and the static variables it leaves. -/
def fatInit (ds : BitVec 16) (volume : Volume) : LoaderProgram (ℤ × Volume) := do
  if (← diskGetParams) ≠ 0 then return (-1, volume)
  else if (← diskReadSector 0 ds (bootSectorSeg.setWidth 16)) ≠ 0 then return (-1, volume)
  else
    let bytesPerSector ← readLe16 (bootSectorSeg + 11)
    let sectorsPerCluster ← load (bootSectorSeg + 13)
    let reservedSectors ← readLe16 (bootSectorSeg + 14)
    let numFats ← load (bootSectorSeg + 16)
    let rootEntryCount ← readLe16 (bootSectorSeg + 17)
    let totalSectors ← readTotalSectors
    let sectorsPerFat ← readLe16 (bootSectorSeg + 22)
    let volume := { volume with
      bytesPerSector := bytesPerSector
      sectorsPerCluster := sectorsPerCluster
      reservedSectors := reservedSectors
      numFats := numFats
      rootEntryCount := rootEntryCount
      totalSectors := totalSectors
      sectorsPerFat := sectorsPerFat.setWidth 32 }
    if bytesPerSector = 0 ∨ sectorsPerCluster = 0 ∨ reservedSectors = 0 ∨ numFats = 0 ∨
        volume.sectorsPerFat = 0 ∨ totalSectors = 0 then
      return (-1, volume)
    else if 4085 ≤ (derive volume).clusterCount then return (-1, derive volume)
    else return (0, derive volume)

/-! ## The root directory -/

/-- The rest of the loop of `memcmp` from index `i` on. -/
def memcmpFrom (ptr1 ptr2 : Word) : ℕ → Word → LoaderProgram ℤ
  | 0, _ => return 0
  | left + 1, i => do
    let a ← load (ptr1 + i)
    let b ← load (ptr2 + i)
    if a ≠ b then return if b < a then 1 else -1
    else memcmpFrom ptr1 ptr2 left (i + 1)

def memcmp (ptr1 ptr2 n : Word) : LoaderProgram ℤ := memcmpFrom ptr1 ptr2 n.toNat 0

/-- The variables behind the two pointers that `fat_find_file` returns its result through. -/
structure Found where
  firstCluster : BitVec 16
  fileSize : Word
deriving DecidableEq

/-- `sizeof(DirEntry)`. -/
def dirEntrySize : Word := 32

/-- The inner loop of `fat_find_file`, from the entry at `e` on: `none` if it runs to its end. The
fields of an entry are `name` at 0, `ext` at 8, `attribute` at 11, `firstCluster` at 26 and `fileSize`
at 28. -/
def findInSector (name83 : Word) (found : Found) : ℕ → Word → LoaderProgram (Option (ℤ × Found))
  | 0, _ => return none
  | left + 1, e => do
    let first ← load e
    if first = 0x00 then return some (-1, found)
    else if first = 0xE5 then findInSector name83 found left (e + dirEntrySize)
    else
      let attributes ← load (e + 11)
      if attributes = 0x0F then findInSector name83 found left (e + dirEntrySize)
      else if attributes &&& 0x10 ≠ 0 ∨ attributes &&& 0x08 ≠ 0 then
        findInSector name83 found left (e + dirEntrySize)
      else if (← memcmp e name83 8) = 0 then
        if (← memcmp (e + 8) (name83 + 8) 3) = 0 then
          let firstCluster ← readLe16 (e + 26)
          let fileSize ← readLe32 (e + 28)
          return some (0, ⟨firstCluster, fileSize⟩)
        else findInSector name83 found left (e + dirEntrySize)
      else findInSector name83 found left (e + dirEntrySize)

/-- The outer loop of `fat_find_file` from sector `i` on. -/
def findInSectors (ds : BitVec 16) (volume : Volume) (name83 : Word) (found : Found) :
    ℕ → Word → LoaderProgram (ℤ × Found)
  | 0, _ => return (-1, found)
  | left + 1, i => do
    if (← diskReadSector (volume.firstRootDirSector + i) ds (rootDirSeg.setWidth 16)) ≠ 0 then
      return (-1, found)
    else
      let entries := volume.bytesPerSector / dirEntrySize.setWidth 16
      match ← findInSector name83 found entries.toNat rootDirSeg with
      | some result => return result
      | none => findInSectors ds volume name83 found left (i + 1)

/-- Returns the code and what it leaves in the variables of the caller. -/
def fatFindFile (ds : BitVec 16) (volume : Volume) (name83 : Word) (found : Found) :
    LoaderProgram (ℤ × Found) :=
  findInSectors ds volume name83 found volume.rootDirSectors.toNat 0

/-! ## The file allocation table -/

def fat12NextCluster (fat : Word) (cluster : BitVec 16) : LoaderProgram (BitVec 16) := do
  let offset := cluster + cluster / 2
  let low ← load (fat + offset.setWidth 32)
  let high ← load (fat + offset.setWidth 32 + 1)
  if cluster &&& 1 ≠ 0 then
    return (low.setWidth 16 >>> 4 ||| high.setWidth 16 <<< 4) &&& 0x0FFF
  else
    return (low.setWidth 16 ||| (high.setWidth 16 &&& 0x0F) <<< 8) &&& 0x0FFF

/-- The rest of the loop of `fat_read_table` from sector `i` on. -/
def fatReadTableFrom (ds : BitVec 16) (volume : Volume) : ℕ → Word → LoaderProgram ℤ
  | 0, _ => return 0
  | left + 1, i => do
    let dstOff := (fatSeg + i * volume.bytesPerSector.setWidth 32).setWidth 16
    if (← diskReadSector (volume.firstFatSector + i) ds dstOff) ≠ 0 then return -1
    else fatReadTableFrom ds volume left (i + 1)

def fatReadTable (ds : BitVec 16) (volume : Volume) : LoaderProgram ℤ :=
  fatReadTableFrom ds volume volume.sectorsPerFat.toNat 0

/-! ## Loading a file -/

/-- The inner loop of `fat_load_file`, over the sectors of one cluster: the new `linear` and
`remaining`, or `none` if a read failed. `i` counts up to an 8-bit bound. -/
def loadSectors (volume : Volume) (lba : Word) :
    ℕ → Byte → Word → Word → LoaderProgram (Option (Word × Word))
  | 0, _, _, _ => .diverge
  | bound + 1, i, linear, remaining =>
    if i < volume.sectorsPerCluster ∧ 0 < remaining then do
      let code ← diskReadSector (lba + i.setWidth 32) ((linear >>> 4).setWidth 16)
        ((linear &&& 0xF).setWidth 16)
      if code ≠ 0 then return none
      else
        let bytes := volume.bytesPerSector.setWidth 32
        let chunk := if remaining < bytes then remaining else bytes
        loadSectors volume lba bound (i + 1) (linear + chunk) (remaining - chunk)
    else return some (linear, remaining)

/-- The outer loop of `fat_load_file`. `fuel` bounds its rounds. -/
def loadClusters (volume : Volume) : ℕ → BitVec 16 → Word → Word → LoaderProgram ℤ
  | 0, _, _, _ => .diverge
  | fuel + 1, cluster, linear, remaining =>
    if remaining = 0 then return 0
    else do
      let lba := volume.firstDataSector +
        (cluster.setWidth 32 - 2) * volume.sectorsPerCluster.setWidth 32
      match ← loadSectors volume lba 256 0 linear remaining with
      | none => return -1
      | some (linear, remaining) =>
        if remaining = 0 then return 0
        else
          let cluster ← fat12NextCluster fatSeg cluster
          if cluster = 0xFF7 then return -1
          else if cluster < 2 ∨ 0xFF8 ≤ cluster then return -1
          else loadClusters volume fuel cluster linear remaining

def fatLoadFile (fuel : ℕ) (ds : BitVec 16) (volume : Volume) (firstCluster : BitVec 16)
    (fileSize destination : Word) : LoaderProgram ℤ := do
  let linear := ds.setWidth 32 <<< 4 + (destination.setWidth 16).setWidth 32
  if firstCluster < 2 then return -1
  else if (← fatReadTable ds volume) ≠ 0 then return -1
  else loadClusters volume fuel firstCluster linear fileSize

end NeilOS.Loader
