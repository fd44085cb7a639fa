import NeilOS.Loader.Fat
import Mathlib.Algebra.Order.Floor.Div

/-!
# Which volumes the loader accepts

`fat_init` computes the geometry of the volume from the boot sector in 8-, 16- and 32-bit arithmetic
and never compares the start of the data area with the size of the volume. The bound on the cluster
count does that work: a volume that ends before its data area starts makes the number of data sectors
wrap, and the wrapped number is too large for any cluster size.
-/

namespace NeilOS.Loader

open Foundation Program

/-! ## The geometry of a volume -/

/-- The number that `count` little-endian bytes from `offset` on stand for. -/
def littleEndian (bytes : ℕ → Byte) (offset : ℕ) : ℕ → ℕ
  | 0 => 0
  | count + 1 => (bytes offset).toNat + 256 * littleEndian bytes (offset + 1) count

/-- The fields of a boot sector, as plain numbers. -/
structure Geometry where
  bytesPerSector : ℕ
  sectorsPerCluster : ℕ
  reservedSectors : ℕ
  numFats : ℕ
  rootEntries : ℕ
  totalSectors : ℕ
  sectorsPerFat : ℕ

namespace Geometry

def ofSector (sector : ℕ → Byte) : Geometry where
  bytesPerSector := littleEndian sector 11 2
  sectorsPerCluster := (sector 13).toNat
  reservedSectors := littleEndian sector 14 2
  numFats := (sector 16).toNat
  rootEntries := littleEndian sector 17 2
  totalSectors := if littleEndian sector 19 2 = 0 then littleEndian sector 32 4 else littleEndian sector 19 2
  sectorsPerFat := littleEndian sector 22 2

variable (geometry : Geometry)

def firstRootDir : ℕ := geometry.reservedSectors + geometry.numFats * geometry.sectorsPerFat

def rootDirSectors : ℕ := (32 * geometry.rootEntries) ⌈/⌉ geometry.bytesPerSector

def firstData : ℕ := geometry.firstRootDir + geometry.rootDirSectors

def clusterCount : ℕ := (geometry.totalSectors - geometry.firstData) / geometry.sectorsPerCluster

/-- The fields the loader divides by or counts with are not zero. -/
structure Nonzero : Prop where
  bytesPerSector : geometry.bytesPerSector ≠ 0
  sectorsPerCluster : geometry.sectorsPerCluster ≠ 0
  reservedSectors : geometry.reservedSectors ≠ 0
  numFats : geometry.numFats ≠ 0
  sectorsPerFat : geometry.sectorsPerFat ≠ 0
  totalSectors : geometry.totalSectors ≠ 0

/-- A FAT12 volume: its data area starts inside of it and has few clusters. -/
structure Valid : Prop extends Nonzero geometry where
  firstData_le : geometry.firstData ≤ geometry.totalSectors
  clusterCount_lt : geometry.clusterCount < 4085

end Geometry

/-- The static variables that are read from the boot sector hold the fields of the geometry. -/
structure Parsed (volume : Volume) (geometry : Geometry) : Prop where
  bytesPerSector : volume.bytesPerSector.toNat = geometry.bytesPerSector
  sectorsPerCluster : volume.sectorsPerCluster.toNat = geometry.sectorsPerCluster
  reservedSectors : volume.reservedSectors.toNat = geometry.reservedSectors
  numFats : volume.numFats.toNat = geometry.numFats
  rootEntryCount : volume.rootEntryCount.toNat = geometry.rootEntries
  totalSectors : volume.totalSectors.toNat = geometry.totalSectors
  sectorsPerFat : volume.sectorsPerFat.toNat = geometry.sectorsPerFat

/-- All static variables hold the numbers of the geometry. -/
structure Describes (volume : Volume) (geometry : Geometry) : Prop extends Parsed volume geometry where
  rootDirSectors : volume.rootDirSectors.toNat = geometry.rootDirSectors
  firstFatSector : volume.firstFatSector.toNat = geometry.reservedSectors
  firstRootDirSector : volume.firstRootDirSector.toNat = geometry.firstRootDir
  rootDirFirstSector : volume.rootDirFirstSector.toNat = geometry.firstRootDir
  firstDataSector : volume.firstDataSector.toNat = geometry.firstData
  dataSectors : volume.dataSectors.toNat = geometry.totalSectors - geometry.firstData
  clusterCount : volume.clusterCount.toNat = geometry.clusterCount

/-! ## The fields in memory -/

theorem toNat_le16 (low high : Byte) :
    (low.setWidth 16 ||| high.setWidth 16 <<< 8 : BitVec 16).toNat = low.toNat + 256 * high.toNat := by
  have hlow := low.isLt
  have hhigh := high.isLt
  rw [Word.toNat_or_shiftLeft (by rw [toNat_widened]; omega) (by rw [toNat_widened]; omega),
    toNat_widened, toNat_widened, show 2 ^ 8 = 256 from rfl]

theorem toNat_le32 (first second third fourth : Byte) :
    (first.setWidth 32 ||| second.setWidth 32 <<< 8 ||| third.setWidth 32 <<< 16 |||
      fourth.setWidth 32 <<< 24 : Word).toNat =
      first.toNat + 256 * (second.toNat + 256 * (third.toNat + 256 * fourth.toNat)) := by
  have hfirst := first.isLt
  have hsecond := second.isLt
  have hthird := third.isLt
  have hfourth := fourth.isLt
  have hwidth (byte : Byte) : (byte.setWidth 32).toNat = byte.toNat :=
    BitVec.toNat_setWidth_of_le (by decide)
  have htwo := @Word.toNat_or_shiftLeft 32 8 (first.setWidth 32) (second.setWidth 32)
    (by rw [hwidth]; omega) (by rw [hwidth]; omega)
  rw [hwidth, hwidth] at htwo
  have hthree := @Word.toNat_or_shiftLeft 32 16 (first.setWidth 32 ||| second.setWidth 32 <<< 8)
    (third.setWidth 32) (by omega) (by rw [hwidth]; omega)
  rw [hwidth, htwo] at hthree
  rw [Word.toNat_or_shiftLeft (by omega) (by rw [hwidth]; omega), hthree, hwidth]
  omega

section Fields

variable {drive : Drive} {ds : BitVec 16} {machine : Machine} {sector : ℕ → Byte}

/-- The bytes of a sector are at `DS:pointer`. -/
def Holds (ds : BitVec 16) (pointer : Word) (sector : ℕ → Byte) (machine : Machine) : Prop :=
  ∀ offset < 512, machine.memory (linearAddress ds 0 + (pointer + .ofNat 32 offset)) = sector offset

/-- A pointer into the data segment and the segment and offset of a read are the same address. -/
theorem linearAddress_pointer (ds : BitVec 16) {pointer : Word} (h : pointer.toNat < 2 ^ 16) :
    linearAddress ds (pointer.setWidth 16) = linearAddress ds 0 + pointer := by
  have hoffset : (pointer.setWidth 16).setWidth 32 = pointer := by
    apply BitVec.eq_of_toNat_eq
    simp only [BitVec.toNat_setWidth]
    omega
  simp [linearAddress, hoffset]

theorem holds_storeSector (ds : BitVec 16) {pointer : Word} (hpointer : pointer.toNat < 2 ^ 16)
    (sector : ℕ → Byte) (memory : Memory) (reads : ℕ) :
    Holds ds pointer sector
      ⟨storeSector memory (linearAddress ds (pointer.setWidth 16)) sector, reads⟩ := by
  intro offset hoffset
  have hdistance : linearAddress ds 0 + (pointer + BitVec.ofNat 32 offset) -
      (linearAddress ds 0 + pointer) = BitVec.ofNat 32 offset := by
    rw [← BitVec.add_assoc, BitVec.add_comm, BitVec.add_sub_cancel]
  simp only [storeSector, linearAddress_pointer ds hpointer, hdistance]
  rw [Word.toNat_ofNat_of_lt (by omega), if_pos hoffset]

variable {pointer : Word}

theorem meets_field8 (h : Holds ds pointer sector machine) (offset : ℕ) {post : Byte → Machine → Prop}
    (hoffset : offset < 512) (hpost : ∀ value, value.toNat = (sector offset).toNat → post value machine) :
    Meets (handle drive ds) Unrestricted (load (pointer + .ofNat 32 offset)) machine post := by
  rw [meets_load]
  exact hpost _ (by rw [h offset hoffset])

theorem pointer_add (pointer : Word) (offset count : ℕ) :
    pointer + BitVec.ofNat 32 offset + .ofNat 32 count = pointer + .ofNat 32 (offset + count) := by
  rw [BitVec.ofNat_add, BitVec.add_assoc]

theorem meets_field16 (h : Holds ds pointer sector machine) (offset : ℕ)
    {post : BitVec 16 → Machine → Prop} (hoffset : offset + 1 < 512)
    (hpost : ∀ value, value.toNat = littleEndian sector offset 2 → post value machine) :
    Meets (handle drive ds) Unrestricted (readLe16 (pointer + .ofNat 32 offset)) machine post := by
  have hsecond : pointer + BitVec.ofNat 32 offset + 1 = _ := pointer_add pointer offset 1
  simp only [readLe16, meets_bind, meets_load, meets_pure]
  refine hpost _ ?_
  rw [toNat_le16, hsecond, h offset (by omega), h (offset + 1) hoffset]
  rfl

theorem meets_field32 (h : Holds ds pointer sector machine) (offset : ℕ) {post : Word → Machine → Prop}
    (hoffset : offset + 3 < 512)
    (hpost : ∀ value, value.toNat = littleEndian sector offset 4 → post value machine) :
    Meets (handle drive ds) Unrestricted (readLe32 (pointer + .ofNat 32 offset)) machine post := by
  have hsecond : pointer + BitVec.ofNat 32 offset + 1 = _ := pointer_add pointer offset 1
  have hthird : pointer + BitVec.ofNat 32 offset + 2 = _ := pointer_add pointer offset 2
  have hfourth : pointer + BitVec.ofNat 32 offset + 3 = _ := pointer_add pointer offset 3
  simp only [readLe32, meets_bind, meets_load, meets_pure]
  refine hpost _ ?_
  rw [toNat_le32, hsecond, hthird, hfourth, h offset (by omega), h (offset + 1) (by omega),
    h (offset + 2) (by omega), h (offset + 3) hoffset]
  rfl

theorem meets_totalSectors (h : Holds ds bootSectorSeg sector machine) {post : Word → Machine → Prop}
    (hpost : ∀ value, value.toNat = (Geometry.ofSector sector).totalSectors → post value machine) :
    Meets (handle drive ds) Unrestricted readTotalSectors machine post := by
  unfold readTotalSectors
  rw [meets_bind]
  refine meets_field16 h 19 (by decide) fun total htotal ↦ ?_
  have hzero : total = 0 ↔ littleEndian sector 19 2 = 0 := by
    rw [← htotal, ← BitVec.toNat_inj]
    rfl
  simp only [Geometry.ofSector] at hpost
  split_ifs with hfallback
  · rw [if_pos (hzero.mp hfallback)] at hpost
    exact meets_field32 h 32 (by decide) hpost
  · rw [if_neg fun hfield ↦ hfallback (hzero.mpr hfield)] at hpost
    refine hpost _ ?_
    rw [← htotal, BitVec.toNat_setWidth, Nat.mod_eq_of_lt (by omega)]

end Fields

/-! ## The derived numbers -/

namespace Parsed

variable {volume : Volume} {geometry : Geometry}

/-- The 16-bit products and sums of the source do not leave 32 bits. -/
theorem toNat_rootDirSectors (h : Parsed volume geometry) (hbytes : geometry.bytesPerSector ≠ 0) :
    (derive volume).rootDirSectors.toNat = geometry.rootDirSectors ∧
      geometry.rootDirSectors ≤ 32 * 2 ^ 16 + 2 ^ 16 := by
  have hsize := volume.bytesPerSector.isLt
  have hentries := volume.rootEntryCount.isLt
  rw [h.bytesPerSector] at hsize
  rw [h.rootEntryCount] at hentries
  have hcount : (volume.rootEntryCount.setWidth 32 * 32 +
      (volume.bytesPerSector.setWidth 32 - 1)).toNat =
      32 * geometry.rootEntries + geometry.bytesPerSector - 1 := by
    have hfirst : (volume.rootEntryCount.setWidth 32).toNat = geometry.rootEntries := by
      rw [BitVec.toNat_setWidth, h.rootEntryCount, Nat.mod_eq_of_lt (by omega)]
    have hsecond : (volume.bytesPerSector.setWidth 32).toNat = geometry.bytesPerSector := by
      rw [BitVec.toNat_setWidth, h.bytesPerSector, Nat.mod_eq_of_lt (by omega)]
    bv_omega
  have hceil : geometry.rootDirSectors =
      (32 * geometry.rootEntries + geometry.bytesPerSector - 1) / geometry.bytesPerSector :=
    Nat.ceilDiv_eq_add_pred_div _ _
  constructor
  · change (_ / _ : Word).toNat = _
    rw [BitVec.toNat_udiv, hcount, BitVec.toNat_setWidth, h.bytesPerSector,
      Nat.mod_eq_of_lt (by omega), hceil]
  · rw [hceil]
    exact (Nat.div_le_self _ _).trans (by omega)

theorem toNat_firstRootDir (h : Parsed volume geometry) (hfat : geometry.sectorsPerFat < 2 ^ 16) :
    (derive volume).firstRootDirSector.toNat = geometry.firstRootDir ∧
      geometry.firstRootDir < 2 ^ 16 + 2 ^ 24 := by
  have hfats := volume.numFats.isLt
  have hreserved := volume.reservedSectors.isLt
  rw [h.numFats] at hfats
  rw [h.reservedSectors] at hreserved
  have hproduct : geometry.numFats * geometry.sectorsPerFat ≤ 2 ^ 8 * 2 ^ 16 :=
    Nat.mul_le_mul hfats.le hfat.le
  have hbound : geometry.firstRootDir < 2 ^ 16 + 2 ^ 24 := by
    unfold Geometry.firstRootDir
    omega
  refine ⟨?_, hbound⟩
  change (_ + _ * _ : Word).toNat = _
  rw [BitVec.toNat_add, BitVec.toNat_mul, BitVec.toNat_setWidth, BitVec.toNat_setWidth, h.numFats,
    h.reservedSectors, h.sectorsPerFat, Nat.mod_eq_of_lt (by omega : geometry.numFats < 2 ^ 32),
    Nat.mod_eq_of_lt (by omega : geometry.numFats * geometry.sectorsPerFat < 2 ^ 32)]
  unfold Geometry.firstRootDir at hbound ⊢
  omega

theorem toNat_firstData (h : Parsed volume geometry) (hfat : geometry.sectorsPerFat < 2 ^ 16)
    (hbytes : geometry.bytesPerSector ≠ 0) :
    (derive volume).firstDataSector.toNat = geometry.firstData ∧ geometry.firstData < 2 ^ 25 := by
  obtain ⟨hroot, hrootBound⟩ := h.toNat_rootDirSectors hbytes
  obtain ⟨hfirst, hfirstBound⟩ := h.toNat_firstRootDir hfat
  have hbound : geometry.firstData < 2 ^ 25 := by
    unfold Geometry.firstData
    omega
  refine ⟨?_, hbound⟩
  change ((derive volume).firstRootDirSector + (derive volume).rootDirSectors).toNat = _
  rw [BitVec.toNat_add, hfirst, hroot]
  exact Nat.mod_eq_of_lt (hbound.trans (by decide))

/-- The number of clusters passes the check exactly if the data area starts inside the volume and has
few enough clusters: if it started behind the volume, the wrapped difference would be at least
`2 ^ 32 - 2 ^ 25`, and a cluster has at most 255 sectors. -/
theorem clusterCount_lt_iff (h : Parsed volume geometry) (hfat : geometry.sectorsPerFat < 2 ^ 16)
    (hnonzero : geometry.Nonzero) :
    (derive volume).clusterCount.toNat < 4085 ↔
      geometry.firstData ≤ geometry.totalSectors ∧ geometry.clusterCount < 4085 := by
  obtain ⟨hfirst, hbound⟩ := h.toNat_firstData hfat hnonzero.bytesPerSector
  have hclusters := volume.sectorsPerCluster.isLt
  have htotal := volume.totalSectors.isLt
  rw [h.sectorsPerCluster] at hclusters
  rw [h.totalSectors] at htotal
  have hpositive := Nat.pos_of_ne_zero hnonzero.sectorsPerCluster
  have hcount : (derive volume).clusterCount.toNat =
      (2 ^ 32 - geometry.firstData + geometry.totalSectors) % 2 ^ 32 / geometry.sectorsPerCluster := by
    change ((volume.totalSectors - (derive volume).firstDataSector) / _ : Word).toNat = _
    rw [BitVec.toNat_udiv, BitVec.toNat_sub, BitVec.toNat_setWidth, hfirst, h.totalSectors,
      h.sectorsPerCluster, Nat.mod_eq_of_lt (by omega : geometry.sectorsPerCluster < 2 ^ 32)]
  rw [hcount]
  by_cases hinside : geometry.firstData ≤ geometry.totalSectors
  · have hexact : (2 ^ 32 - geometry.firstData + geometry.totalSectors) % 2 ^ 32 =
        geometry.totalSectors - geometry.firstData := by omega
    rw [hexact, Geometry.clusterCount]
    exact (and_iff_right hinside).symm
  · refine iff_of_false ?_ fun hvalid ↦ hinside hvalid.1
    rw [Nat.div_lt_iff_lt_mul hpositive]
    omega

theorem nonzero_iff (h : Parsed volume geometry) :
    geometry.Nonzero ↔ ¬ (volume.bytesPerSector = 0 ∨ volume.sectorsPerCluster = 0 ∨
      volume.reservedSectors = 0 ∨ volume.numFats = 0 ∨ volume.sectorsPerFat = 0 ∨
      volume.totalSectors = 0) := by
  have hzero {width : ℕ} (value : BitVec width) : value = 0 ↔ value.toNat = 0 := by
    rw [← BitVec.toNat_inj]
    simp
  simp only [hzero, h.bytesPerSector, h.sectorsPerCluster, h.reservedSectors, h.numFats,
    h.sectorsPerFat, h.totalSectors, not_or]
  constructor
  · exact fun hall ↦ ⟨hall.1, hall.2, hall.3, hall.4, hall.5, hall.6⟩
  · exact fun ⟨hfirst, hsecond, hthird, hfourth, hfifth, hsixth⟩ ↦
      ⟨hfirst, hsecond, hthird, hfourth, hfifth, hsixth⟩

/-- On a valid volume nothing wraps. -/
theorem describes (h : Parsed volume geometry) (hfat : geometry.sectorsPerFat < 2 ^ 16)
    (hvalid : geometry.Valid) : Describes (derive volume) geometry := by
  obtain ⟨hroot, -⟩ := h.toNat_rootDirSectors hvalid.bytesPerSector
  obtain ⟨hfirst, -⟩ := h.toNat_firstRootDir hfat
  obtain ⟨hdata, -⟩ := h.toNat_firstData hfat hvalid.bytesPerSector
  have hinside := hvalid.firstData_le
  have htotal := h.totalSectors
  have hsectors : (derive volume).dataSectors.toNat = geometry.totalSectors - geometry.firstData := by
    change (volume.totalSectors - (derive volume).firstDataSector).toNat = _
    bv_omega
  have hclusters := volume.sectorsPerCluster.isLt
  exact
    { bytesPerSector := h.bytesPerSector
      sectorsPerCluster := h.sectorsPerCluster
      reservedSectors := h.reservedSectors
      numFats := h.numFats
      rootEntryCount := h.rootEntryCount
      totalSectors := h.totalSectors
      sectorsPerFat := h.sectorsPerFat
      rootDirSectors := hroot
      firstFatSector := by
        change (volume.reservedSectors.setWidth 32).toNat = _
        rw [BitVec.toNat_setWidth, h.reservedSectors]
        have := volume.reservedSectors.isLt
        rw [h.reservedSectors] at this
        omega
      firstRootDirSector := hfirst
      rootDirFirstSector := hfirst
      firstDataSector := hdata
      dataSectors := hsectors
      clusterCount := by
        change ((derive volume).dataSectors / _ : Word).toNat = _
        rw [BitVec.toNat_udiv, hsectors, BitVec.toNat_setWidth, Nat.mod_eq_of_lt (by omega),
          h.sectorsPerCluster]
        rfl }

end Parsed

/-! ## `fat_init` -/

section Boot

variable {drive : Drive} {ds : BitVec 16} {machine : Machine}

theorem littleEndian_two_lt (sector : ℕ → Byte) (offset : ℕ) : littleEndian sector offset 2 < 2 ^ 16 := by
  have hlow := (sector offset).isLt
  have hhigh := (sector (offset + 1)).isLt
  simp only [littleEndian]
  omega

variable (drive machine) in
/-- What `fat_init` returns: 0 only with a valid geometry and the exact numbers in the static
variables, and -1 otherwise. If the boot sector can be read, a valid geometry is enough. -/
def Checks (result : ℤ × Volume) : Prop :=
  result.1 = 0 ∧ (Geometry.ofSector (drive.sector 0)).Valid ∧
      Describes result.2 (.ofSector (drive.sector 0)) ∨
    result.1 = -1 ∧ (drive.paramsKnown = true → drive.succeeds machine.reads = true →
      ¬ (Geometry.ofSector (drive.sector 0)).Valid)

/-- The checks and assignments once the fields are read. -/
theorem meets_checks {volume : Volume} {booted : Machine}
    (h : Parsed volume (.ofSector (drive.sector 0))) :
    Meets (handle drive ds) Unrestricted
      (if volume.bytesPerSector = 0 ∨ volume.sectorsPerCluster = 0 ∨ volume.reservedSectors = 0 ∨
          volume.numFats = 0 ∨ volume.sectorsPerFat = 0 ∨ volume.totalSectors = 0 then
        return (-1, volume)
      else if 4085 ≤ (derive volume).clusterCount then return (-1, derive volume)
      else return (0, derive volume))
      booted fun result _ ↦ Checks drive machine result := by
  have hfat : (Geometry.ofSector (drive.sector 0)).sectorsPerFat < 2 ^ 16 := littleEndian_two_lt _ _
  split_ifs with hzero hlarge
  · exact .inr ⟨rfl, fun _ _ hvalid ↦ h.nonzero_iff.mp hvalid.toNonzero hzero⟩
  · refine .inr ⟨rfl, fun _ _ hvalid ↦ ?_⟩
    have hcount := (h.clusterCount_lt_iff hfat hvalid.toNonzero).mpr
      ⟨hvalid.firstData_le, hvalid.clusterCount_lt⟩
    exact BitVec.not_lt.mpr hlarge (BitVec.lt_def.mpr hcount)
  · have hnonzero := h.nonzero_iff.mpr hzero
    have hcount := BitVec.lt_def.mp (BitVec.not_le.mp hlarge)
    obtain ⟨hinside, hfew⟩ := (h.clusterCount_lt_iff hfat hnonzero).mp hcount
    exact .inl ⟨rfl, ⟨hnonzero, hinside, hfew⟩, h.describes hfat ⟨hnonzero, hinside, hfew⟩⟩

theorem fatInit_spec (before : Volume) :
    Meets (handle drive ds) Unrestricted (fatInit ds before) machine
      fun result _ ↦ Checks drive machine result := by
  unfold fatInit
  rw [meets_bind, meets_diskGetParams]
  cases hparams : drive.paramsKnown with
  | false =>
    refine .inr ⟨rfl, ?_⟩
    rw [hparams]
    exact fun hknown ↦ absurd hknown (by decide)
  | true =>
  rw [if_pos rfl, if_neg (by decide), meets_bind]
  apply meets_diskReadSector
  · intro _
    have hbooted := holds_storeSector ds (by decide : bootSectorSeg.toNat < 2 ^ 16) (drive.sector 0)
      machine.memory (machine.reads + 1)
    rw [if_neg (by decide), meets_bind]
    refine meets_field16 hbooted 11 (by decide) fun bytesPerSector hbytes ↦ ?_
    rw [meets_bind]
    refine meets_field8 hbooted 13 (by decide) fun sectorsPerCluster hclusters ↦ ?_
    rw [meets_bind]
    refine meets_field16 hbooted 14 (by decide) fun reservedSectors hreserved ↦ ?_
    rw [meets_bind]
    refine meets_field8 hbooted 16 (by decide) fun numFats hfats ↦ ?_
    rw [meets_bind]
    refine meets_field16 hbooted 17 (by decide) fun rootEntryCount hentries ↦ ?_
    rw [meets_bind]
    refine meets_totalSectors hbooted fun totalSectors htotal ↦ ?_
    rw [meets_bind]
    refine meets_field16 hbooted 22 (by decide) fun sectorsPerFat hfat ↦ ?_
    have hwide : (sectorsPerFat.setWidth 32).toNat = littleEndian (drive.sector 0) 22 2 := by
      rw [BitVec.toNat_setWidth, Nat.mod_eq_of_lt (by omega), hfat]
    have hparsed : Parsed { before with
        bytesPerSector := bytesPerSector
        sectorsPerCluster := sectorsPerCluster
        reservedSectors := reservedSectors
        numFats := numFats
        rootEntryCount := rootEntryCount
        totalSectors := totalSectors
        sectorsPerFat := sectorsPerFat.setWidth 32 } (.ofSector (drive.sector 0)) :=
      ⟨hbytes, hclusters, hreserved, hfats, hentries, htotal, hwide⟩
    exact meets_checks hparsed
  · intro hfailed
    rw [if_pos (by decide)]
    refine .inr ⟨rfl, fun _ hread ↦ ?_⟩
    rw [hread] at hfailed
    exact absurd hfailed (by decide)

/-- What `fat_init` has checked when it returns 0. -/
structure Accepted (volume : Volume) : Prop where
  sectorsPerCluster_pos : 0 < volume.sectorsPerCluster.toNat
  clusterCount_lt : volume.clusterCount.toNat < 4085

theorem fatInit_describes (before : Volume) :
    Meets (handle drive ds) Unrestricted (fatInit ds before) machine fun result _ ↦
      result.1 = 0 → (Geometry.ofSector (drive.sector 0)).Valid ∧
        Describes result.2 (.ofSector (drive.sector 0)) := by
  refine (fatInit_spec before).mono ?_
  rintro ⟨code, volume⟩ _ (⟨-, hvalid, hexact⟩ | ⟨rfl, -⟩) hcode
  · exact ⟨hvalid, hexact⟩
  · exact absurd hcode (by decide : (-1 : ℤ) ≠ 0)

theorem fatInit_accepted (before : Volume) :
    Meets (handle drive ds) Unrestricted (fatInit ds before) machine
      fun result _ ↦ result.1 = 0 → Accepted result.2 := by
  refine (fatInit_describes before).mono fun result _ haccepted hcode ↦ ?_
  obtain ⟨hvalid, hexact⟩ := haccepted hcode
  constructor
  · rw [hexact.sectorsPerCluster]
    exact Nat.pos_of_ne_zero hvalid.sectorsPerCluster
  · rw [hexact.clusterCount]
    exact hvalid.clusterCount_lt

/-- The areas of an accepted volume, in terms of the static variables alone: the tables lie in front
of the data area, and all clusters lie in the volume. -/
structure Areas (volume : Volume) : Prop where
  bytesPerSector_pos : 0 < volume.bytesPerSector.toNat
  sectorsPerCluster_pos : 0 < volume.sectorsPerCluster.toNat
  firstFatSector_pos : 0 < volume.firstFatSector.toNat
  table_le : volume.firstFatSector.toNat + volume.sectorsPerFat.toNat ≤
    volume.firstRootDirSector.toNat
  rootDir_le : volume.firstRootDirSector.toNat ≤ volume.firstDataSector.toNat
  firstDataSector_lt : volume.firstDataSector.toNat < 2 ^ 25
  clusters_le : volume.firstDataSector.toNat +
    volume.clusterCount.toNat * volume.sectorsPerCluster.toNat ≤ volume.totalSectors.toNat
  sectorsPerFat_pos : 0 < volume.sectorsPerFat.toNat

theorem Describes.areas {volume : Volume} {geometry : Geometry} (h : Describes volume geometry)
    (hvalid : geometry.Valid) (hfat : geometry.sectorsPerFat < 2 ^ 16) : Areas volume where
  bytesPerSector_pos := by
    rw [h.bytesPerSector]
    exact Nat.pos_of_ne_zero hvalid.bytesPerSector
  sectorsPerCluster_pos := by
    rw [h.sectorsPerCluster]
    exact Nat.pos_of_ne_zero hvalid.sectorsPerCluster
  firstFatSector_pos := by
    rw [h.firstFatSector]
    exact Nat.pos_of_ne_zero hvalid.reservedSectors
  table_le := by
    rw [h.firstFatSector, h.sectorsPerFat, h.firstRootDirSector]
    exact Nat.add_le_add_left (Nat.le_mul_of_pos_left _ (Nat.pos_of_ne_zero hvalid.numFats)) _
  rootDir_le := by
    rw [h.firstRootDirSector, h.firstDataSector]
    exact Nat.le_add_right _ _
  firstDataSector_lt := by
    rw [h.firstDataSector]
    exact (h.toParsed.toNat_firstData hfat hvalid.bytesPerSector).2
  clusters_le := by
    have hwhole := Nat.div_mul_le_self (geometry.totalSectors - geometry.firstData)
      geometry.sectorsPerCluster
    have hinside := hvalid.firstData_le
    rw [h.firstDataSector, h.clusterCount, h.sectorsPerCluster, h.totalSectors, Geometry.clusterCount]
    omega
  sectorsPerFat_pos := by
    rw [h.sectorsPerFat]
    exact Nat.pos_of_ne_zero hvalid.sectorsPerFat

theorem fatInit_areas (before : Volume) :
    Meets (handle drive ds) Unrestricted (fatInit ds before) machine
      fun result _ ↦ result.1 = 0 → Areas result.2 := by
  refine (fatInit_describes before).mono fun result _ haccepted hcode ↦ ?_
  obtain ⟨hvalid, hexact⟩ := haccepted hcode
  exact hexact.areas hvalid (littleEndian_two_lt _ _)

/-- `fat_init` accepts exactly the FAT12 volumes, computed over the natural numbers, and then all its
static variables hold the exact numbers. -/
theorem fatInit_exact (before : Volume) (hparams : drive.paramsKnown = true)
    (hread : drive.succeeds machine.reads = true) :
    ∃ code volume after,
      exec (handle drive ds) (fatInit ds before) machine = some ((code, volume), after) ∧
      (code = 0 ↔ (Geometry.ofSector (drive.sector 0)).Valid) ∧
      (code = 0 → Describes volume (.ofSector (drive.sector 0))) := by
  obtain ⟨⟨code, volume⟩, after, hexec, hchecks⟩ := (fatInit_spec before).exec
  refine ⟨code, volume, after, hexec, ?_⟩
  rcases hchecks with ⟨rfl, hvalid, hexact⟩ | ⟨rfl, hinvalid⟩
  · exact ⟨iff_of_true rfl hvalid, fun _ ↦ hexact⟩
  · exact ⟨iff_of_false (by decide) (hinvalid hparams hread), fun hcode ↦ absurd hcode (by decide)⟩

end Boot

/-- A small volume with seven one-sector clusters. A file occupies clusters 2 and 3, and every other
sector is filled with its number. -/
def smallDisk (lba : Word) (index : ℕ) : Byte :=
  if lba = 0 then
    match index with
    | 12 => 2
    | 13 => 1
    | 14 => 1
    | 16 => 1
    | 17 => 16
    | 19 => 10
    | 22 => 1
    | _ => 0
  else if lba = 1 then
    match index with
    | 3 => 0x03
    | 4 => 0xF0
    | 5 => 0xFF
    | _ => 0
  else lba.setWidth 8

def smallDrive : Drive := ⟨true, smallDisk, fun _ ↦ true, fun _ memory ↦ memory⟩

def smallVolume : Volume where
  numFats := 1
  sectorsPerCluster := 1
  bytesPerSector := 512
  reservedSectors := 1
  rootEntryCount := 16
  totalSectors := 10
  sectorsPerFat := 1
  rootDirSectors := 1
  firstDataSector := 3
  firstFatSector := 1
  firstRootDirSector := 2
  dataSectors := 7
  clusterCount := 7
  rootDirFirstSector := 2

theorem fatInit_smallDrive : exec (handle smallDrive 0x0500) (fatInit 0x0500 smallVolume)
    ⟨fun _ ↦ 0, 0⟩ = some ((0, smallVolume), ⟨storeSector (fun _ ↦ 0) 0x7000 (smallDisk 0), 1⟩) := by
  rfl

theorem fatInit_exact_small_volume :
    ∃ volume after, exec (handle smallDrive 0x0500) (fatInit 0x0500 smallVolume) ⟨fun _ ↦ 0, 0⟩ =
        some ((0, volume), after) ∧
      Describes volume (.ofSector (smallDisk 0)) := by
  have hvalid : (Geometry.ofSector (smallDisk 0)).Valid := by
    refine ⟨⟨?_, ?_, ?_, ?_, ?_, ?_⟩, ?_, ?_⟩ <;> decide
  obtain ⟨code, volume, after, hexec, hiff, hexact⟩ :=
    @fatInit_exact smallDrive 0x0500 ⟨fun _ ↦ 0, 0⟩ smallVolume rfl rfl
  obtain rfl := hiff.mpr hvalid
  exact ⟨volume, after, hexec, hexact rfl⟩

end NeilOS.Loader
