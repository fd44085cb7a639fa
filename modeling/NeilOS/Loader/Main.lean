import NeilOS.Loader.Buffers
import NeilOS.Loader.Listing
import NeilOS.Loader.Load
import NeilOS.Loader.Refinement

/-!
# From the disk to the kernel

`stage2_main` accepts the volume, looks for the kernel under two names, loads it and jumps to it, and
hangs with a message wherever one of these steps fails. The names are string literals in the image of the
loader, which stage 1 has placed at `0x5000`. The buffers of the loader lie behind the image, so neither a
read nor what a failing read leaves behind can change them.
-/

namespace NeilOS.Loader

open Foundation Program
open Disk (Bios)

/-! ## `stage2_main` -/

/-- Where `stage2_main` ends: in one of three endless loops, after the message of each, or in the
kernel. -/
inductive Ending where
  | initFailed
  | kernelNotFound (listing : List Byte)
  | loadFailed
  | started
deriving DecidableEq

/-- `stage2_main` once it has found the kernel. -/
def loadKernel (fuel : ℕ) (ds : BitVec 16) (volume : Volume) (found : Found) : LoaderProgram Ending := do
  if (← fatLoadFile fuel ds volume found.firstCluster found.fileSize kernelSeg) ≠ 0 then
    return .loadFailed
  else return .started

/-- `kernel` and `kernelBin` are the addresses of the two names, and `found` holds the local variables,
which are not initialised. -/
def stage2Main (fuel : ℕ) (ds : BitVec 16) (kernel kernelBin : Word) (volume : Volume) (found : Found) :
    LoaderProgram Ending := do
  let (code, volume) ← fatInit ds volume
  if code ≠ 0 then return .initFailed
  else
    let (code, found) ← fatFindFile ds volume kernel found
    if code = 0 then loadKernel fuel ds volume found
    else
      let (code, found) ← fatFindFile ds volume kernelBin found
      if code = 0 then loadKernel fuel ds volume found
      else
        let listing ← debugDumpRootDir ds volume []
        return .kernelNotFound listing

/-- A name of eleven characters. -/
def nameOf (str : String) (index : ℕ) : Byte := (text str).getD index 0

/-- The bytes of the loader itself. -/
def InImage (target : Word) : Prop := 0x5000 ≤ target.toNat ∧ target.toNat < 0x7000

/-- A name within the image of the loader. -/
structure Literal (name83 : Word) (str : String) (memory : Memory) : Prop where
  inside : name83.toNat + 11 ≤ 0x2000
  bytes : ∀ index < 11, memory (linearAddress 0x0500 0 + (name83 + .ofNat 32 index)) = nameOf str index

/-! ## What the loader may read -/

section Only

variable {allowed : LoaderOp → Prop} {ds : BitVec 16}

theorem only_load (hload : ∀ pointer, allowed (.load pointer)) (pointer : Word) :
    (load pointer).Only allowed :=
  ⟨hload pointer, fun _ ↦ trivial⟩

theorem only_read {lba : Word} {segment offset : BitVec 16}
    (hread : allowed (.diskReadSector lba segment offset)) :
    (diskReadSector lba segment offset).Only allowed :=
  ⟨hread, fun _ ↦ trivial⟩

theorem only_readLe16 (hload : ∀ pointer, allowed (.load pointer)) (p : Word) :
    (readLe16 p).Only allowed :=
  (only_load hload _).bind fun _ ↦ (only_load hload _).bind fun _ ↦ trivial

theorem only_readLe32 (hload : ∀ pointer, allowed (.load pointer)) (p : Word) :
    (readLe32 p).Only allowed :=
  (only_load hload _).bind fun _ ↦ (only_load hload _).bind fun _ ↦ (only_load hload _).bind fun _ ↦
    (only_load hload _).bind fun _ ↦ trivial

theorem only_memcmpFrom (hload : ∀ pointer, allowed (.load pointer)) (ptr1 ptr2 : Word) (left : ℕ)
    (i : Word) : (memcmpFrom ptr1 ptr2 left i).Only allowed := by
  induction left generalizing i with
  | zero => trivial
  | succ left ih =>
    refine (only_load hload _).bind fun a ↦ (only_load hload _).bind fun b ↦ ?_
    split_ifs
    · trivial
    · trivial
    · exact ih (i + 1)

theorem only_fatInit (hload : ∀ pointer, allowed (.load pointer)) (hparams : allowed .diskGetParams)
    (hread : allowed (.diskReadSector 0 ds (bootSectorSeg.setWidth 16))) (before : Volume) :
    (fatInit ds before).Only allowed := by
  have htotal : readTotalSectors.Only allowed := by
    refine (only_readLe16 hload _).bind fun total ↦ ?_
    split_ifs
    · exact only_readLe32 hload _
    · trivial
  have hcall : diskGetParams.Only allowed := ⟨hparams, fun _ ↦ trivial⟩
  refine hcall.bind fun code ↦ ?_
  split_ifs
  · trivial
  refine (only_read hread).bind fun code ↦ ?_
  split_ifs
  · trivial
  refine (only_readLe16 hload _).bind fun _ ↦ (only_load hload _).bind fun _ ↦
    (only_readLe16 hload _).bind fun _ ↦ (only_load hload _).bind fun _ ↦
    (only_readLe16 hload _).bind fun _ ↦ htotal.bind fun _ ↦ (only_readLe16 hload _).bind fun _ ↦ ?_
  dsimp only
  split_ifs <;> trivial

theorem only_findInSector (hload : ∀ pointer, allowed (.load pointer)) (name83 : Word) (found : Found)
    (left : ℕ) (e : Word) : (findInSector name83 found left e).Only allowed := by
  induction left generalizing e with
  | zero => trivial
  | succ left ih =>
    refine (only_load hload _).bind fun first ↦ ?_
    split_ifs
    · trivial
    · exact ih _
    refine (only_load hload _).bind fun attributes ↦ ?_
    split_ifs
    · exact ih _
    · exact ih _
    refine (only_memcmpFrom hload _ _ _ _).bind fun code ↦ ?_
    split_ifs
    · refine (only_memcmpFrom hload _ _ _ _).bind fun code ↦ ?_
      split_ifs
      · exact (only_readLe16 hload _).bind fun _ ↦ (only_readLe32 hload _).bind fun _ ↦ trivial
      · exact ih _
    · exact ih _

theorem only_findInSectors (hload : ∀ pointer, allowed (.load pointer))
    (hread : ∀ lba, allowed (.diskReadSector lba ds (rootDirSeg.setWidth 16))) (volume : Volume)
    (name83 : Word) (found : Found) (left : ℕ) (i : Word) :
    (findInSectors ds volume name83 found left i).Only allowed := by
  induction left generalizing i with
  | zero => trivial
  | succ left ih =>
    refine (only_read (hread _)).bind fun code ↦ ?_
    split_ifs
    · trivial
    refine (only_findInSector hload name83 found _ rootDirSeg).bind fun out ↦ ?_
    cases out with
    | none => exact ih _
    | some answer => trivial

theorem only_debugPrintName83From (hload : ∀ pointer, allowed (.load pointer)) (e : Word) (left : ℕ)
    (i : BitVec 16) (screen : List Byte) : (debugPrintName83From e left i screen).Only allowed := by
  induction left generalizing i screen with
  | zero => trivial
  | succ left ih => exact (only_load hload _).bind fun c ↦ ih _ _

theorem only_dumpInSector (hload : ∀ pointer, allowed (.load pointer)) (left : ℕ) (e : Word)
    (printed : BitVec 16) (screen : List Byte) : (dumpInSector left e printed screen).Only allowed := by
  induction left generalizing e printed screen with
  | zero => trivial
  | succ left ih =>
    rw [dumpInSector]
    split_ifs
    · refine (only_load hload _).bind fun first ↦ ?_
      split_ifs
      · trivial
      · exact ih _ _ _
      refine (only_load hload _).bind fun attributes ↦ ?_
      split_ifs
      · exact ih _ _ _
      · exact ih _ _ _
      · exact (only_debugPrintName83From hload _ _ _ _).bind fun screen ↦ ih _ _ _
    · trivial

theorem only_dumpInSectors (hload : ∀ pointer, allowed (.load pointer))
    (hread : ∀ lba, allowed (.diskReadSector lba ds (rootDirSeg.setWidth 16))) (volume : Volume)
    (left : ℕ) (i : Word) (printed : BitVec 16) (screen : List Byte) :
    (dumpInSectors ds volume left i printed screen).Only allowed := by
  induction left generalizing i printed screen with
  | zero => trivial
  | succ left ih =>
    refine (only_read (hread _)).bind fun code ↦ ?_
    split_ifs
    · trivial
    refine (only_dumpInSector hload _ rootDirSeg printed screen).bind fun dumped ↦ ?_
    split_ifs
    · trivial
    · exact ih _ _ _

end Only

/-! ## What the loader keeps -/

section Kept

variable {drive : Drive} {ds : BitVec 16} {machine : Machine} {area : Word → Prop}

/-- The bytes of an area are the same. -/
def Kept (area : Word → Prop) (before after : Machine) : Prop :=
  ∀ target, area target → after.memory target = before.memory target

theorem handle_total (op : LoaderOp) (machine : Machine) : ∃ reply, handle drive ds op machine = some reply := by
  cases op with
  | diskGetParams => exact ⟨_, rfl⟩
  | load pointer => exact ⟨_, rfl⟩
  | diskReadSector lba segment offset =>
    cases hread : drive.succeeds machine.reads <;> simp [handle, hread]

theorem handle_kept (hleaves : ∀ number memory target, area target →
      drive.leaves number memory target = memory target)
    {op : LoaderOp} {reply : op.Answer × Machine} (hspares : Spares area machine op)
    (hreply : handle drive ds op machine = some reply) : Kept area machine reply.2 := by
  intro target harea
  cases op with
  | diskGetParams => rw [← Option.some.inj hreply]
  | load pointer => rw [← Option.some.inj hreply]
  | diskReadSector lba segment offset =>
    simp only [handle] at hreply
    split at hreply
    · rw [← Option.some.inj hreply]
      exact if_neg (Nat.not_lt.mpr (hspares target harea))
    · rw [← Option.some.inj hreply]
      exact hleaves _ _ target harea

/-- A program that stays away from an area keeps it. -/
theorem meets_kept (hleaves : ∀ number memory target, area target →
      drive.leaves number memory target = memory target)
    {α : Type} {program : LoaderProgram α} {post : α → Machine → Prop}
    (h : Meets (handle drive ds) Unrestricted program machine post)
    (hspares : Meets (handle drive ds) (Spares area) program machine fun _ _ ↦ True) :
    Meets (handle drive ds) (Spares area) program machine fun value after ↦
      post value after ∧ Kept area machine after := by
  refine (h.within hspares).preserve (fun _ _ _ ↦ rfl) ?_ ?_
  · exact fun first second third hfirst hsecond target harea ↦
      (hsecond target harea).trans (hfirst target harea)
  · exact fun before op reply hop hreply ↦ handle_kept hleaves hop hreply

/-- The operations that stay away from the image of the loader, in any state. -/
def SparesImage (op : LoaderOp) : Prop := ∀ machine, Spares InImage machine op

theorem meets_only {α : Type} {program : LoaderProgram α} (h : program.Only SparesImage) :
    Meets (handle drive ds) (Spares InImage) program machine fun _ _ ↦ True :=
  (h.meets handle_total machine).allow fun before _ hop ↦ hop before

/-- A buffer behind the image, below the video memory. -/
theorem avoids_image {buffer : Word} (hlow : 0x7000 ≤ buffer.toNat) (hhigh : buffer.toNat + 512 ≤ 0xA0000) :
    Avoids InImage buffer := by
  intro target ⟨hfirst, hlast⟩
  bv_omega

end Kept

/-! ## The disk -/

/-- The static variables that `fat_init` computes from a boot sector. -/
def Volume.ofGeometry (geometry : Geometry) : Volume where
  numFats := .ofNat 8 geometry.numFats
  sectorsPerCluster := .ofNat 8 geometry.sectorsPerCluster
  bytesPerSector := .ofNat 16 geometry.bytesPerSector
  reservedSectors := .ofNat 16 geometry.reservedSectors
  rootEntryCount := .ofNat 16 geometry.rootEntries
  totalSectors := .ofNat 32 geometry.totalSectors
  sectorsPerFat := .ofNat 32 geometry.sectorsPerFat
  rootDirSectors := .ofNat 32 geometry.rootDirSectors
  firstDataSector := .ofNat 32 geometry.firstData
  firstFatSector := .ofNat 32 geometry.reservedSectors
  firstRootDirSector := .ofNat 32 geometry.firstRootDir
  dataSectors := .ofNat 32 (geometry.totalSectors - geometry.firstData)
  clusterCount := .ofNat 32 geometry.clusterCount
  rootDirFirstSector := .ofNat 32 geometry.firstRootDir

theorem Describes.eq_ofGeometry {volume : Volume} {geometry : Geometry} (h : Describes volume geometry) :
    volume = .ofGeometry geometry := by
  have hfield {width : ℕ} {value : BitVec width} {number : ℕ} (hnumber : value.toNat = number) :
      value = .ofNat width number := by
    rw [← hnumber, BitVec.ofNat_toNat, BitVec.setWidth_eq]
  cases volume
  exact (Volume.mk.injEq ..).mpr ⟨hfield h.numFats, hfield h.sectorsPerCluster, hfield h.bytesPerSector,
    hfield h.reservedSectors, hfield h.rootEntryCount, hfield h.totalSectors, hfield h.sectorsPerFat,
    hfield h.rootDirSectors, hfield h.firstDataSector, hfield h.firstFatSector,
    hfield h.firstRootDirSector, hfield h.dataSectors, hfield h.clusterCount,
    hfield h.rootDirFirstSector⟩

section Disk

variable (drive : Drive)

def bootGeometry : Geometry := .ofSector (drive.sector 0)

def bootVolume : Volume := .ofGeometry (bootGeometry drive)

/-- The root directory. -/
def rootDirectory : List DirEntry :=
  directory drive (bootVolume drive) 0 (bootVolume drive).rootDirSectors.toNat

/-- The entry is a file with one of the two names of the kernel. -/
def DirEntry.IsKernel (entry : DirEntry) : Prop :=
  entry.Names (nameOf "KERNEL     ") ∨ entry.Names (nameOf "KERNEL  BIN")

instance (entry : DirEntry) : Decidable entry.IsKernel := inferInstanceAs (Decidable (_ ∨ _))

/-- The file that the loader takes for the kernel: the first with the first name, and if there is none
the first with the second. -/
def kernelEntry : Option DirEntry :=
  lookup (nameOf "KERNEL     ") (rootDirectory drive) <|>
    lookup (nameOf "KERNEL  BIN") (rootDirectory drive)

/-- Every link that a file of this size needs leads to a cluster. -/
def Linked (found : Found) : Prop :=
  ∀ step < (found.fileSize.toNat + clusterSize (bootVolume drive) - 1) / clusterSize (bootVolume drive) - 1,
    IsCluster (bootVolume drive) (chain drive (bootVolume drive) found.firstCluster.toNat (step + 1))

instance (found : Found) : Decidable (Linked drive found) := Nat.decidableBallLT ..

/-- The ending on a disk that can be read. -/
def bootEnding : Ending :=
  match kernelEntry drive with
  | none => .kernelNotFound
      (text "Root entries seen:\r\n" ++ (listing (rootDirectory drive)).flatMap DirEntry.line)
  | some entry => if Linked drive entry.found then .started else .loadFailed

/-- A FAT12 volume on which a file with the name of the kernel starts at a cluster and fits into the load
area. With a longer directory the stack of the search, which loses two bytes at each read, would reach the
buffer of the directory. -/
structure Bootable : Prop where
  fat12 : Fat12 drive (bootVolume drive)
  directory_le : (bootVolume drive).rootDirSectors.toNat ≤ 1024
  kernels : ∀ entry ∈ (rootDirectory drive).takeWhile fun entry ↦ entry 0 ≠ 0, entry.IsKernel →
    IsCluster (bootVolume drive) entry.found.firstCluster.toNat ∧
      0x9000 + entry.found.fileSize.toNat ≤ 0xA0000

/-- The kernel is in memory as it is on the disk. -/
def KernelLoaded (memory : Memory) : Prop :=
  ∃ entry ∈ (rootDirectory drive).takeWhile fun entry ↦ entry 0 ≠ 0, entry.IsKernel ∧
    ∀ index < entry.found.fileSize.toNat, memory (.ofNat 32 (0x9000 + index)) =
      fileByte drive (bootVolume drive) entry.found.firstCluster.toNat index

/-- What can be said about the end of `stage2_main`. -/
structure Boots (ending : Ending) (memory : Memory) : Prop where
  kernel : ending = .started → KernelLoaded drive memory
  invalid : ¬ (bootGeometry drive).Valid → ending = .initFailed
  exact : drive.paramsKnown = true → (∀ number, drive.succeeds number = true) →
    (bootGeometry drive).Valid → ending = bootEnding drive

end Disk

/-! ## The search -/

section Search

variable {drive : Drive} {machine : Machine} {name83 : Word} {str : String}

/-- The reads of a loop over the directory succeed up to some sector. -/
theorem exists_readable (drive : Drive) (volume : Volume) (start : ℕ) :
    ∃ count, Readable drive volume start count := by
  have hshorter (bound : ℕ) : ∃ count ≤ bound,
      (∀ sector < count, drive.succeeds (start + sector) = true) ∧
        (count = bound ∨ drive.succeeds (start + count) = false) := by
    induction bound with
    | zero => exact ⟨0, le_rfl, fun _ hsector ↦ absurd hsector (Nat.not_lt_zero _), .inl rfl⟩
    | succ bound ih =>
      obtain ⟨count, hle, hsucceed, hstops⟩ := ih
      rcases hstops with rfl | hfailed
      · cases hnext : drive.succeeds (start + count) with
        | true => exact ⟨count + 1, le_rfl, Nat.forall_lt_succ_right.mpr ⟨hsucceed, hnext⟩, .inl rfl⟩
        | false => exact ⟨count, Nat.le_succ _, hsucceed, .inr hnext⟩
      · exact ⟨count, hle.trans (Nat.le_succ _), hsucceed, .inr hfailed⟩
  obtain ⟨count, hle, hsucceed, hstops⟩ := hshorter volume.rootDirSectors.toNat
  exact ⟨count, hle, hsucceed, hstops⟩

theorem Readable.eq_all {volume : Volume} {start count : ℕ} (h : Readable drive volume start count)
    (hall : ∀ number, drive.succeeds number = true) : count = volume.rootDirSectors.toNat := by
  rcases h.stops with hend | hfailed
  · exact hend
  · rw [hall] at hfailed
    exact absurd hfailed (by decide)

/-- A file found in a part of the directory is a file of the directory. -/
theorem Readable.found {start count : ℕ} (h : Readable drive (bootVolume drive) start count)
    {name : ℕ → Byte} {entry : DirEntry}
    (hlookup : lookup name (directory drive (bootVolume drive) 0 count) = some entry) :
    (entry ∈ (rootDirectory drive).takeWhile fun entry ↦ entry 0 ≠ 0) ∧ entry.Names name := by
  obtain ⟨rest, hrest⟩ := Nat.exists_eq_add_of_le h.le
  have hwhole : rootDirectory drive = directory drive (bootVolume drive) 0 count ++
      directory drive (bootVolume drive) count rest := by
    unfold rootDirectory directory
    rw [hrest, ← List.flatMap_append, ← List.range'_append_1, Nat.zero_add]
  have hmem := List.mem_of_find?_eq_some hlookup
  have hnames := List.find?_some hlookup
  refine ⟨?_, by simpa using hnames⟩
  rw [hwhole, List.takeWhile_append]
  split_ifs
  · exact List.mem_append_left _ ((List.takeWhile_sublist _).subset hmem)
  · exact hmem

theorem Literal.address_inImage {memory : Memory} (h : Literal name83 str memory) {index : ℕ}
    (hindex : index < 11) : InImage (linearAddress 0x0500 0 + (name83 + .ofNat 32 index)) := by
  have hinside := h.inside
  have hbase : linearAddress 0x0500 0 = (0x5000 : Word) := rfl
  rw [hbase]
  constructor <;> bv_omega

theorem Literal.kept (h : Literal name83 str machine.memory) {after : Machine}
    (hkept : Kept InImage machine after) : Literal name83 str after.memory :=
  ⟨h.inside, fun index hindex ↦ (hkept _ (h.address_inImage hindex)).trans (h.bytes index hindex)⟩

theorem Literal.outsideBuffer {memory : Memory} (h : Literal name83 str memory) : OutsideBuffer name83 := by
  intro index hindex
  have hinside := h.inside
  have hbuffer : rootDirSeg = 0x3400 := rfl
  rw [hbuffer]
  bv_omega

theorem sparesImage_rootDir (lba : Word) :
    SparesImage (.diskReadSector lba 0x0500 (rootDirSeg.setWidth 16)) := fun _ ↦
  avoids_image (by decide : 0x7000 ≤ (linearAddress 0x0500 (rootDirSeg.setWidth 16)).toNat) (by decide)

theorem fatFindFile_spec (hleaves : ∀ number memory target, InImage target →
      drive.leaves number memory target = memory target)
    (hbytes : (bootVolume drive).bytesPerSector = 512) (hname : Literal name83 str machine.memory)
    (before : Found) :
    Meets (handle drive 0x0500) (Spares InImage) (fatFindFile 0x0500 (bootVolume drive) name83 before)
      machine fun answer after ↦
        (∃ count, Readable drive (bootVolume drive) machine.reads count ∧
          answer = outcome before
            (lookup (nameOf str) (directory drive (bootVolume drive) 0 count))) ∧
        Kept InImage machine after := by
  obtain ⟨count, hreadable⟩ := exists_readable drive (bootVolume drive) machine.reads
  have hfind := findInSectors_spec hbytes hname.bytes hname.outsideBuffer hreadable before
    (Nat.zero_add _) (Nat.zero_le count) (Nat.add_zero _).symm
  refine meets_kept hleaves (hfind.mono fun answer _ hanswer ↦ ⟨count, hreadable, hanswer⟩) (meets_only ?_)
  exact only_findInSectors (fun _ _ ↦ trivial) sparesImage_rootDir _ _ _ _ _

end Search

/-! ## The load -/

section Load

variable {drive : Drive} {machine : Machine}

theorem fatLoadFile_spec (haccepted : Accepted (bootVolume drive)) (hvolume : Fat12 drive (bootVolume drive))
    {found : Found} (hfirst : IsCluster (bootVolume drive) found.firstCluster.toNat)
    (hsize : 0x9000 + found.fileSize.toNat ≤ 0xA0000) {fuel : ℕ} (hfuel : found.fileSize.toNat < fuel) :
    Meets (handle drive 0x0500) Unrestricted
      (fatLoadFile fuel 0x0500 (bootVolume drive) found.firstCluster found.fileSize kernelSeg) machine
      (Ends drive (bootVolume drive) found.firstCluster.toNat found.fileSize.toNat 0 machine.reads) := by
  have hlow := hfirst.1
  unfold fatLoadFile
  rw [if_neg (by bv_omega), meets_bind]
  refine (fatReadTable_spec machine hvolume.bytesPerSector_eq hvolume.sectorsPerFat_le).mono ?_
  intro code middle ⟨hle, hcases⟩
  rcases hcases with ⟨rfl, hall, htable⟩ | ⟨rfl, hfailed⟩
  · rw [if_neg (by decide), kernelStart_eq]
    have hstart : Position drive (bootVolume drive) found.firstCluster.toNat found.fileSize.toNat
        (0 * (bootVolume drive).sectorsPerCluster.toNat) (.ofNat 32 0x9000) found.fileSize
        middle.memory := by
      rw [Nat.zero_mul]
      exact ⟨⟨htable, Memory.BytesAt.zero _ 0x9000 (fileByte drive (bootVolume drive) _)⟩, rfl, fun _ ↦ rfl⟩
    exact (loadClusters_spec haccepted hvolume hsize rfl hfirst hfuel hstart).mono
      fun code last hends ↦ hends.after_reads hle hall
  · exact Ends.failure hle fun hgood ↦ hfailed hgood.1

/-- The load stores into its buffers only, which lie behind the image. -/
theorem fatLoadFile_spares (hareas : Areas (bootVolume drive)) (hvolume : Fat12 drive (bootVolume drive))
    {found : Found} (hsize : 0x9000 + found.fileSize.toNat ≤ 0xA0000) {fuel : ℕ}
    (hfuel : found.fileSize.toNat < fuel) :
    Meets (handle drive 0x0500) (Spares InImage)
      (fatLoadFile fuel 0x0500 (bootVolume drive) found.firstCluster found.fileSize kernelSeg) machine
      fun _ _ ↦ True := by
  let call : Call := ⟨drive, 0x0500, bootVolume drive, found.firstCluster, found.fileSize, kernelSeg, machine⟩
  have hbytes : (bootVolume drive).bytesPerSector.toNat = 512 := by
    rw [hvolume.bytesPerSector_eq]
    rfl
  have hfits : FitsBuffers (bootVolume drive) found.fileSize := by
    have htable := hvolume.sectorsPerFat_le
    refine ⟨?_, .inr ?_⟩
    · rw [hbytes]
      omega
    · rw [hbytes, Nat.ceilDiv_eq_add_pred_div]
      omega
  have hstays : call.StaysInBuffers fuel := hfits.stays hareas rfl rfl hfuel
  rw [meets_iff]
  constructor
  · intro event hevent
    obtain ⟨state, op⟩ := event
    cases op with
    | diskGetParams => trivial
    | load pointer => trivial
    | diskReadSector lba segment offset =>
      have hplace := hstays _ hevent lba segment offset rfl
      unfold InBuffers at hplace
      have hbounds : 0x7000 ≤ (linearAddress segment offset).toNat ∧
          (linearAddress segment offset).toNat + 512 ≤ 0xA0000 := by
        split_ifs at hplace
        · omega
        · omega
      exact avoids_image hbounds.1 hbounds.2
  · obtain ⟨code, after, hexec, -⟩ := (call.reads_spec hareas hfuel).exec
    exact ⟨code, after, hexec, trivial⟩

theorem links_iff_linked (haccepted : Accepted (bootVolume drive)) (found : Found) :
    Links drive (bootVolume drive) found.firstCluster.toNat found.fileSize.toNat 0 ↔ Linked drive found := by
  have hcluster : 0 < clusterSize (bootVolume drive) :=
    Nat.mul_pos (by decide) haccepted.sectorsPerCluster_pos
  unfold Links Linked
  simp only [link_needed_iff hcluster, Nat.zero_le, forall_const]

theorem loadKernel_spec (haccepted : Accepted (bootVolume drive)) (hareas : Areas (bootVolume drive))
    (hvolume : Fat12 drive (bootVolume drive)) {found : Found}
    (hfirst : IsCluster (bootVolume drive) found.firstCluster.toNat)
    (hsize : 0x9000 + found.fileSize.toNat ≤ 0xA0000) {fuel : ℕ} (hfuel : found.fileSize.toNat < fuel) :
    Meets (handle drive 0x0500) (Spares InImage) (loadKernel fuel 0x0500 (bootVolume drive) found) machine
      fun ending after ↦
        (ending = .started → ∀ index < found.fileSize.toNat, after.memory (.ofNat 32 (0x9000 + index)) =
          fileByte drive (bootVolume drive) found.firstCluster.toNat index) ∧
        ending ≠ .initFailed ∧
        ((∀ number, drive.succeeds number = true) →
          ending = if Linked drive found then .started else .loadFailed) := by
  rw [loadKernel, meets_bind]
  refine ((fatLoadFile_spec haccepted hvolume hfirst hsize hfuel).within
    (fatLoadFile_spares hareas hvolume hsize hfuel)).mono fun code after hends ↦ ?_
  obtain ⟨-, hiff, hbytes⟩ := hends
  rw [links_iff_linked haccepted] at hiff
  have hlinked (hall : ∀ number, drive.succeeds number = true) : code = 0 ↔ Linked drive found :=
    hiff.trans (and_iff_right fun number _ _ ↦ hall number)
  by_cases hcode : code = 0
  · rw [if_neg (not_not.mpr hcode)]
    refine ⟨fun _ ↦ hbytes hcode, Ending.noConfusion, fun hall ↦ ?_⟩
    exact (if_pos ((hlinked hall).mp hcode)).symm
  · rw [if_pos hcode]
    refine ⟨Ending.noConfusion, Ending.noConfusion, fun hall ↦ ?_⟩
    exact (if_neg fun hgood ↦ hcode ((hlinked hall).mpr hgood)).symm

end Load

/-! ## The whole loader -/

section Boot

variable {drive : Drive} {machine : Machine} {fuel : ℕ}

theorem directory_all {start count : ℕ} (h : Readable drive (bootVolume drive) start count)
    (hall : ∀ number, drive.succeeds number = true) :
    directory drive (bootVolume drive) 0 count = rootDirectory drive := by
  rw [h.eq_all hall]
  rfl

/-- From the entry of the kernel on. -/
theorem loadKernel_boots (hdisk : Bootable drive) (hvalid : (bootGeometry drive).Valid)
    (hexact : Describes (bootVolume drive) (bootGeometry drive)) (hfuel : 0x97000 < fuel)
    {entry : DirEntry} (hentry : entry ∈ (rootDirectory drive).takeWhile fun entry ↦ entry 0 ≠ 0)
    (hkernel : entry.IsKernel)
    (hchosen : (∀ number, drive.succeeds number = true) → kernelEntry drive = some entry) :
    Meets (handle drive 0x0500) (Spares InImage) (loadKernel fuel 0x0500 (bootVolume drive) entry.found)
      machine fun ending after ↦ Boots drive ending after.memory := by
  obtain ⟨hfirst, hsize⟩ := hdisk.kernels entry hentry hkernel
  have hareas := hexact.areas hvalid (littleEndian_two_lt _ _)
  have haccepted : Accepted (bootVolume drive) := by
    refine ⟨hareas.sectorsPerCluster_pos, ?_⟩
    rw [hexact.clusterCount]
    exact hvalid.clusterCount_lt
  refine (loadKernel_spec haccepted hareas hdisk.fat12 hfirst hsize (by omega)).mono ?_
  rintro ending after ⟨hbytes, -, hending⟩
  refine ⟨fun hstarted ↦ ⟨entry, hentry, hkernel, hbytes hstarted⟩, absurd hvalid, fun _ hall _ ↦ ?_⟩
  rw [bootEnding, hchosen hall]
  exact hending hall

theorem dump_boots (hdisk : Bootable drive) (hvalid : (bootGeometry drive).Valid)
    (hnone : (∀ number, drive.succeeds number = true) → kernelEntry drive = none) :
    Meets (handle drive 0x0500) (Spares InImage)
      (do
        let listing ← debugDumpRootDir 0x0500 (bootVolume drive) []
        return Ending.kernelNotFound listing)
      machine fun ending after ↦ Boots drive ending after.memory := by
  obtain ⟨count, hreadable⟩ := exists_readable drive (bootVolume drive) machine.reads
  have hspares : Meets (handle drive 0x0500) (Spares InImage)
      (debugDumpRootDir 0x0500 (bootVolume drive) []) machine fun _ _ ↦ True :=
    meets_only (only_dumpInSectors (fun _ _ ↦ trivial) sparesImage_rootDir _ _ _ _ _)
  rw [meets_bind]
  refine ((debugDumpRootDir_spec hdisk.fat12.bytesPerSector_eq hreadable []).within hspares).mono ?_
  rintro listing after rfl
  refine ⟨Ending.noConfusion, absurd hvalid, fun _ hall _ ↦ ?_⟩
  have hcomplete : ¬ count < (bootVolume drive).rootDirSectors.toNat := by
    rw [hreadable.eq_all hall]
    exact Nat.lt_irrefl _
  rw [bootEnding, hnone hall, directory_all hreadable hall, if_neg fun h ↦ hcomplete h.1, List.append_nil]
  rfl

theorem stage2Main_spec (hleaves : ∀ number memory target, InImage target →
      drive.leaves number memory target = memory target)
    (hbootable : (bootGeometry drive).Valid → Bootable drive) {kernel kernelBin : Word}
    (hkernel : Literal kernel "KERNEL     " machine.memory)
    (hkernelBin : Literal kernelBin "KERNEL  BIN" machine.memory) (hfuel : 0x97000 < fuel)
    (volume : Volume) (found : Found) :
    Meets (handle drive 0x0500) (Spares InImage)
      (stage2Main fuel 0x0500 kernel kernelBin volume found) machine
      fun ending after ↦ Boots drive ending after.memory := by
  have hboot : SparesImage (.diskReadSector 0 0x0500 (bootSectorSeg.setWidth 16)) := fun _ ↦
    avoids_image (by decide : 0x7000 ≤ (linearAddress 0x0500 (bootSectorSeg.setWidth 16)).toNat) (by decide)
  rw [stage2Main, meets_bind]
  refine (meets_kept hleaves (fatInit_spec volume)
    (meets_only (only_fatInit (fun _ _ ↦ trivial) (fun _ ↦ trivial) hboot volume))).mono ?_
  rintro ⟨code, booted⟩ first ⟨hchecks, hfirst⟩
  rcases hchecks with ⟨rfl, hvalid, hexact⟩ | ⟨rfl, hinvalid⟩
  · obtain rfl : booted = bootVolume drive := hexact.eq_ofGeometry
    have hdisk := hbootable hvalid
    have hbytes := hdisk.fat12.bytesPerSector_eq
    dsimp only
    rw [if_neg (by decide), meets_bind]
    refine (fatFindFile_spec hleaves hbytes (hkernel.kept hfirst) found).mono ?_
    rintro ⟨code, found'⟩ second ⟨⟨count, hreadable, hanswer⟩, hsecond⟩
    cases hlookup : lookup (nameOf "KERNEL     ") (directory drive (bootVolume drive) 0 count) with
    | some entry =>
      obtain ⟨hentry, hnames⟩ := hreadable.found hlookup
      rw [hlookup] at hanswer
      obtain ⟨rfl, rfl⟩ := Prod.mk.inj hanswer
      rw [if_pos rfl]
      refine loadKernel_boots hdisk hvalid hexact hfuel hentry (.inl hnames) fun hall ↦ ?_
      rw [directory_all hreadable hall] at hlookup
      rw [kernelEntry, hlookup]
      rfl
    | none =>
      rw [hlookup] at hanswer
      obtain ⟨rfl, rfl⟩ := Prod.mk.inj hanswer
      dsimp only
      rw [if_neg (by decide), meets_bind]
      refine (fatFindFile_spec hleaves hbytes ((hkernelBin.kept hfirst).kept hsecond) found').mono ?_
      rintro ⟨code, found'⟩ third ⟨⟨other, hother, hanswer⟩, -⟩
      -- On a disk that can be read the first name was looked for in the whole directory.
      have hmissing (hall : ∀ number, drive.succeeds number = true) : kernelEntry drive =
          lookup (nameOf "KERNEL  BIN") (rootDirectory drive) := by
        rw [directory_all hreadable hall] at hlookup
        rw [kernelEntry, hlookup]
        rfl
      cases hsearch : lookup (nameOf "KERNEL  BIN") (directory drive (bootVolume drive) 0 other) with
      | some entry =>
        obtain ⟨hentry, hnames⟩ := hother.found hsearch
        rw [hsearch] at hanswer
        obtain ⟨rfl, rfl⟩ := Prod.mk.inj hanswer
        rw [if_pos rfl]
        refine loadKernel_boots hdisk hvalid hexact hfuel hentry (.inr hnames) fun hall ↦ ?_
        rw [hmissing hall, ← directory_all hother hall, hsearch]
      | none =>
        rw [hsearch] at hanswer
        obtain ⟨rfl, rfl⟩ := Prod.mk.inj hanswer
        dsimp only
        rw [if_neg (by decide)]
        refine dump_boots hdisk hvalid fun hall ↦ ?_
        rw [hmissing hall, ← directory_all hother hall, hsearch]
  · dsimp only
    rw [if_pos (by decide)]
    exact ⟨Ending.noConfusion, fun _ ↦ rfl, fun hparams hall hvalid ↦
      absurd hvalid (hinvalid hparams (hall _))⟩

end Boot

/-! ## Over the BIOS -/

/-- The drive behind the BIOS, if no read of it fails. -/
def biosDrive (bios : Bios) : Drive := driveOf bios fun _ ↦ ⟨true, id⟩

section SameDisk

/-! What is on the disk does not depend on which reads fail. -/

variable {drive other : Drive} (h : drive.sector = other.sector)

include h

theorem bootGeometry_congr : bootGeometry drive = bootGeometry other := by
  rw [bootGeometry, bootGeometry, h]

theorem bootVolume_congr : bootVolume drive = bootVolume other := by
  rw [bootVolume, bootVolume, bootGeometry_congr h]

theorem fatByte_congr : fatByte drive = fatByte other := by
  funext volume index
  rw [fatByte, fatByte, h]

theorem chain_congr : chain drive = chain other := by
  funext volume first step
  induction step with
  | zero => rfl
  | succ step ih => rw [chain, chain, ih, fatByte_congr h]

theorem fileByte_congr : fileByte drive = fileByte other := by
  funext volume first index
  rw [fileByte, fileByte, clusterByte, clusterByte, chain_congr h, h]

theorem rootDirectory_congr : rootDirectory drive = rootDirectory other := by
  rw [rootDirectory, rootDirectory, bootVolume_congr h, directory, directory, h]

theorem bootEnding_congr : bootEnding drive = bootEnding other := by
  simp only [bootEnding, kernelEntry, Linked, rootDirectory_congr h, bootVolume_congr h, chain_congr h]

theorem kernelLoaded_congr (memory : Memory) : KernelLoaded drive memory ↔ KernelLoaded other memory := by
  simp only [KernelLoaded, rootDirectory_congr h, bootVolume_congr h, fileByte_congr h]

theorem Bootable.congr (hdisk : Bootable drive) : Bootable other := by
  refine ⟨⟨?_, ?_, ?_, ?_⟩, ?_, ?_⟩
  · rw [← bootVolume_congr h]
    exact hdisk.fat12.bytesPerSector_eq
  · rw [← bootVolume_congr h]
    exact hdisk.fat12.sectorsPerFat_le
  · rw [← bootVolume_congr h]
    exact hdisk.fat12.covers
  · rw [← bootVolume_congr h, ← fatByte_congr h]
    exact hdisk.fat12.entries
  · rw [← bootVolume_congr h]
    exact hdisk.directory_le
  · rw [← bootVolume_congr h, ← rootDirectory_congr h]
    exact hdisk.kernels

end SameDisk

/-- **Booting.** With a disk behind `INT 13h` that holds no valid volume or a bootable one, `stage2_main`
ends, whichever attempts at its sectors fail. It jumps only to a kernel that is completely in memory.
Without a geometry or a valid volume it reports that, and if of three attempts at a sector one always
succeeds, it ends exactly as the contents of the disk say: with the listing, if there is no kernel, with
the load failing, if the chain of the kernel is broken, and otherwise in the kernel. -/
theorem stage2_boots {bios : Bios} {callSite : BitVec 16} {machine : Disk.Machine} {fuel : ℕ}
    {kernel kernelBin : Word}
    (hdisk : (bootGeometry (biosDrive bios)).Valid → Bootable (biosDrive bios))
    (hkernel : Literal kernel "KERNEL     " machine.memory)
    (hkernelBin : Literal kernelBin "KERNEL  BIN" machine.memory) (hfuel : 0x97000 < fuel)
    (volume : Volume) (found : Found) :
    ∃ ending after, exec (bios.handle 0x0500)
        ((stage2Main fuel 0x0500 kernel kernelBin volume found).translate (overBios bios.number callSite))
          machine = some (ending, after) ∧
      (ending = .started → KernelLoaded (biosDrive bios) after.memory) ∧
      (bios.paramsKnown = false ∨ ¬ (bootGeometry (biosDrive bios)).Valid → ending = .initFailed) ∧
      (bios.paramsKnown = true → Reliable bios → (bootGeometry (biosDrive bios)).Valid →
        ending = bootEnding (biosDrive bios)) := by
  let post (ending : Ending) (memory : Memory) : Prop :=
    (ending = .started → KernelLoaded (biosDrive bios) memory) ∧
      (¬ (bootGeometry (biosDrive bios)).Valid → ending = .initFailed) ∧
      (bios.paramsKnown = true → Reliable bios → (bootGeometry (biosDrive bios)).Valid →
        ending = bootEnding (biosDrive bios))
  have hboots (drive : Drive) (hdrive : Abstracts bios InImage drive) :
      Meets (handle drive 0x0500) (Spares InImage)
        (stage2Main fuel 0x0500 kernel kernelBin volume found) ⟨machine.memory, 0⟩
        fun ending after ↦ post ending after.memory := by
    have hsector : drive.sector = (biosDrive bios).sector := hdrive.sector
    have hbootable (hvalid : (bootGeometry drive).Valid) : Bootable drive := by
      rw [bootGeometry_congr hsector] at hvalid
      exact (hdisk hvalid).congr hsector.symm
    refine (stage2Main_spec hdrive.leaves hbootable hkernel hkernelBin hfuel volume found).mono
      fun ending after hends ↦ ?_
    unfold post
    rw [← kernelLoaded_congr hsector, ← bootGeometry_congr hsector, ← bootEnding_congr hsector]
    refine ⟨hends.kernel, hends.invalid, fun hparams hreliable ↦ ?_⟩
    exact hends.exact (hdrive.params.trans hparams) (hdrive.succeeds hreliable)
  obtain ⟨next, hstart, hgaveUp⟩ : ∃ next, stage2Main fuel 0x0500 kernel kernelBin volume found =
      perform .diskGetParams next ∧ next (-1 : ℤ) = result .initFailed := ⟨_, rfl, rfl⟩
  rw [hstart] at hboots ⊢
  obtain ⟨ending, after, hexec, ⟨hloaded, hinvalid, hexact⟩, hunknown⟩ :=
    meets_over_bios_from_start hgaveUp hboots
  exact ⟨ending, after, hexec, hloaded, fun hcases ↦ hcases.elim hunknown hinvalid, hexact⟩

/-- The slow floppy disk with the small volume on it, whose file of 600 bytes is the kernel. -/
def kernelFloppy : Bios := { Disk.slowFloppy with
  sector := fun block index ↦
    if block = 2 then
      if index < 11 then nameOf "KERNEL  BIN" index
      else match index with
        | 26 => 2
        | 28 => 0x58
        | 29 => 0x02
        | _ => 0
    else smallDisk (.ofNat 32 block) index }

/-- Memory with the two names in the image of the loader. -/
def imageWithNames (target : Word) : Byte :=
  if target.toNat < 0x5110 then nameOf "KERNEL     " (target.toNat - 0x5100)
  else nameOf "KERNEL  BIN" (target.toNat - 0x5110)

theorem stage2_boots_kernel_floppy :
    ∃ after, exec (kernelFloppy.handle 0x0500)
        ((stage2Main 0x97001 0x0500 0x100 0x110 smallVolume ⟨0, 0⟩).translate (overBios 0 0x0200))
        (.fresh imageWithNames 0 0) = some (.started, after) ∧
      KernelLoaded (biosDrive kernelFloppy) after.memory := by
  have hreliable : Reliable kernelFloppy := by
    intro attempt _
    refine ⟨(2 + 3 - attempt % 3) % 3, Nat.mod_lt _ (by decide), ?_⟩
    simp only [kernelFloppy, Disk.slowFloppy, beq_iff_eq]
    omega
  have hvalid : (bootGeometry (biosDrive kernelFloppy)).Valid := by
    refine ⟨⟨?_, ?_, ?_, ?_, ?_, ?_⟩, ?_, ?_⟩ <;> decide
  have hdisk : Bootable (biosDrive kernelFloppy) := by
    refine ⟨⟨rfl, by decide, by decide, ?_⟩, by decide, by decide⟩
    intro cluster hcluster
    have hlow := hcluster.1
    have hhigh : cluster ≤ 8 := hcluster.2
    interval_cases cluster <;> decide
  have hending : bootEnding (biosDrive kernelFloppy) = .started := by decide
  have hkernel : Literal 0x100 "KERNEL     " imageWithNames := ⟨by decide, by decide⟩
  have hkernelBin : Literal 0x110 "KERNEL  BIN" imageWithNames := ⟨by decide, by decide⟩
  obtain ⟨ending, after, hexec, hloaded, -, hexact⟩ := @stage2_boots kernelFloppy 0x0200
    (.fresh imageWithNames 0 0) 0x97001 0x100 0x110 (fun _ ↦ hdisk) hkernel hkernelBin (by decide) smallVolume
    ⟨0, 0⟩
  obtain rfl : ending = .started := (hexact rfl hreliable hvalid).trans hending
  exact ⟨after, hexec, hloaded rfl⟩

end NeilOS.Loader
