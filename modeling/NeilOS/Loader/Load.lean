import NeilOS.Loader.Boot
import Mathlib.Tactic.IntervalCases

/-!
# Loading a file

The loader follows the cluster chain of a file and stores its sectors one after the other from
linear address `0x9000` on. Address, remaining size and position in the chain are all functions of
the number of sectors read so far, which is what the two loops keep in step. The table that gives
the chain lies below the load area and survives the load.
-/

namespace NeilOS.Loader

open Foundation Program

/-! ## The file on the disk -/

section File

variable (drive : Drive) (volume : Volume)

/-- The cluster number after `step` links from `first`. -/
def chain (first : ℕ) : ℕ → ℕ
  | 0 => first
  | step + 1 => tableEntry (fatByte drive volume) (chain first step)

/-- The numbers of the volume's clusters. -/
def IsCluster (cluster : ℕ) : Prop := 2 ≤ cluster ∧ cluster ≤ volume.clusterCount.toNat + 1

instance (cluster : ℕ) : Decidable (IsCluster volume cluster) := inferInstanceAs (Decidable (_ ∧ _))

/-- The size of a cluster of 512-byte sectors. -/
def clusterSize : ℕ := 512 * volume.sectorsPerCluster.toNat

/-- A byte of the contents of a cluster. -/
def clusterByte (cluster index : ℕ) : Byte :=
  drive.sector (volume.firstDataSector +
    .ofNat 32 ((cluster - 2) * volume.sectorsPerCluster.toNat + index / 512)) (index % 512)

/-- A byte of the concatenated clusters of the chain from `first`. -/
def fileByte (first index : ℕ) : Byte :=
  clusterByte drive volume (chain drive volume first (index / clusterSize volume))
    (index % clusterSize volume)

/-- The disk address of a sector of the file. -/
def fileSector (first sectors : ℕ) : Word :=
  volume.firstDataSector + .ofNat 32
    ((chain drive volume first (sectors / volume.sectorsPerCluster.toNat) - 2) *
      volume.sectorsPerCluster.toNat + sectors % volume.sectorsPerCluster.toNat)

/-- A FAT12 volume with 512-byte sectors: its table fits its buffer and covers every cluster, and
every entry of a cluster is free, reserved, a cluster, bad or the end of a chain. -/
structure Fat12 : Prop where
  bytesPerSector_eq : volume.bytesPerSector = 512
  sectorsPerFat_le : volume.sectorsPerFat.toNat ≤ 9
  covers : 12 * (volume.clusterCount.toNat + 2) ≤ 8 * (512 * volume.sectorsPerFat.toNat)
  entries : ∀ cluster, IsCluster volume cluster →
    tableEntry (fatByte drive volume) cluster ≤ 1 ∨
      IsCluster volume (tableEntry (fatByte drive volume) cluster) ∨
      0xFF7 ≤ tableEntry (fatByte drive volume) cluster

/-- The first `sectors` sectors of the file are at `0x9000`, and the table is in its buffer. -/
structure Loaded (first sectors : ℕ) (memory : Memory) : Prop where
  table : TableAt drive volume (512 * volume.sectorsPerFat.toNat) memory
  bytes : ∀ index < 512 * sectors,
    memory (.ofNat 32 (0x9000 + index)) = fileByte drive volume first index

/-- The loop variables after `sectors` sectors of a file of `size` bytes. The address is only right
while there is something left to load. -/
structure Position (first size sectors : ℕ) (linear remaining : Word) (memory : Memory) : Prop where
  loaded : Loaded drive volume first sectors memory
  remaining_eq : remaining.toNat = size - 512 * sectors
  linear_eq : 0 < remaining.toNat → linear = .ofNat 32 (0x9000 + 512 * sectors)

end File

/-! ## One sector -/

section Loops

variable {drive : Drive} {volume : Volume} {first size : ℕ}

theorem fileByte_eq {sectors offset : ℕ} (hoffset : offset < 512) :
    fileByte drive volume first (512 * sectors + offset) =
      drive.sector (fileSector drive volume first sectors) offset := by
  have hsector : (512 * sectors + offset) / 512 = sectors := by omega
  have hinside : (512 * sectors + offset) % 512 = offset := by omega
  unfold fileByte clusterByte clusterSize fileSector
  rw [← Nat.div_div_eq_div_mul, Nat.mod_mul, hsector, hinside,
    show (offset + 512 * (sectors % volume.sectorsPerCluster.toNat)) / 512 =
      sectors % volume.sectorsPerCluster.toNat by omega,
    show (offset + 512 * (sectors % volume.sectorsPerCluster.toNat)) % 512 = offset by omega]

theorem Loaded.storeSector {sectors : ℕ} {memory : Memory}
    (h : Loaded drive volume first sectors memory) (hfat : volume.sectorsPerFat.toNat ≤ 9)
    (hroom : 0x9000 + 512 * sectors + 512 ≤ 0xA0000) :
    Loaded drive volume first (sectors + 1)
      (storeSector memory (.ofNat 32 (0x9000 + 512 * sectors))
        (drive.sector (fileSector drive volume first sectors))) := by
  have htable : memory.BytesAt 0x7200 (512 * volume.sectorsPerFat.toNat) (fatByte drive volume) :=
    h.table
  have hbytes : memory.BytesAt 0x9000 (512 * sectors) (fileByte drive volume first) := h.bytes
  rw [storeSector_eq]
  constructor
  · -- The table ends at 0x8400, below the load area.
    exact htable.frame (by omega) (by omega) (.inl (by omega))
  · rw [Nat.mul_succ]
    exact hbytes.extend (by omega) fun offset hoffset ↦ (fileByte_eq hoffset).symm

/-- The address of a read is the address the loop keeps. -/
theorem Position.address {sectors : ℕ} {linear remaining : Word} {memory : Memory}
    (h : Position drive volume first size sectors linear remaining memory)
    (hsize : 0x9000 + size ≤ 0xA0000) (hmore : 0 < remaining.toNat) :
    linearAddress ((linear >>> 4).setWidth 16) ((linear &&& 0xF).setWidth 16) =
      .ofNat 32 (0x9000 + 512 * sectors) := by
  have hremaining := h.remaining_eq
  rw [linearAddress_split, h.linear_eq hmore]
  rw [h.linear_eq hmore, Word.toNat_ofNat_of_lt (by omega)]
  omega

/-- Reading one more sector. A last chunk shorter than a sector ends the file. -/
theorem Position.next {sectors : ℕ} {linear remaining : Word} {memory : Memory}
    (h : Position drive volume first size sectors linear remaining memory)
    (hfat : volume.sectorsPerFat.toNat ≤ 9) (hsize : 0x9000 + size ≤ 0xA0000)
    (hmore : 0 < remaining.toNat) :
    Position drive volume first size (sectors + 1)
      (linear + if remaining < 512 then remaining else 512)
      (remaining - if remaining < 512 then remaining else 512)
      (storeSector memory (.ofNat 32 (0x9000 + 512 * sectors))
        (drive.sector (fileSector drive volume first sectors))) := by
  have hremaining := h.remaining_eq
  have hlinear := h.linear_eq hmore
  have hshort : remaining < 512 ↔ remaining.toNat < 512 := BitVec.lt_def
  refine ⟨h.loaded.storeSector hfat (by omega), ?_, ?_⟩
  · split_ifs with hlast
    · rw [hshort] at hlast
      rw [BitVec.sub_self]
      change 0 = _
      omega
    · rw [hshort] at hlast
      bv_omega
  · split_ifs with hlast
    · intro hleft
      rw [BitVec.sub_self] at hleft
      exact absurd hleft (by decide)
    · intro _
      rw [hlinear]
      bv_omega

/-! ## The loops -/

/-- Invariant rule of the inner loop, over the number of sectors of the cluster that it has read. -/
theorem meets_loadSectors {ds : BitVec 16} {lba : Word} {guarantee : Machine → LoaderOp → Prop}
    {post : Option (Word × Word) → Machine → Prop} (invariant : ℕ → Word → Word → Machine → Prop)
    (hround : ∀ index linear remaining machine, index < volume.sectorsPerCluster.toNat →
      0 < remaining.toNat → invariant index linear remaining machine →
      Meets (handle drive ds) guarantee
        (diskReadSector (lba + .ofNat 32 index) ((linear >>> 4).setWidth 16)
          ((linear &&& 0xF).setWidth 16)) machine fun code after ↦
        if code ≠ 0 then post none after
        else invariant (index + 1)
          (linear + if remaining < volume.bytesPerSector.setWidth 32 then remaining
            else volume.bytesPerSector.setWidth 32)
          (remaining - if remaining < volume.bytesPerSector.setWidth 32 then remaining
            else volume.bytesPerSector.setWidth 32) after)
    (hend : ∀ index linear remaining machine, index ≤ volume.sectorsPerCluster.toNat →
      (0 < remaining.toNat → index = volume.sectorsPerCluster.toNat) →
      invariant index linear remaining machine → post (some (linear, remaining)) machine)
    {bound : ℕ} {i : Byte} {linear remaining : Word} {machine : Machine}
    (hi : i.toNat ≤ volume.sectorsPerCluster.toNat)
    (hbound : volume.sectorsPerCluster.toNat < bound + i.toNat)
    (hinvariant : invariant i.toNat linear remaining machine) :
    Meets (handle drive ds) guarantee (loadSectors volume lba bound i linear remaining) machine post := by
  induction bound generalizing i linear remaining machine with
  | zero => omega
  | succ bound ih =>
    unfold loadSectors
    split_ifs with hmore
    · obtain ⟨hinside, hleft⟩ := hmore
      have hinside : i.toNat < volume.sectorsPerCluster.toNat := hinside
      have hnumber : (i + 1).toNat = i.toNat + 1 := by
        have := volume.sectorsPerCluster.isLt
        bv_omega
      have hread := hround i.toNat linear remaining machine hinside hleft hinvariant
      rw [BitVec.ofNat_toNat] at hread
      refine hread.bind fun code after hafter ↦ ?_
      by_cases hcode : code ≠ 0
      · rw [if_pos hcode] at hafter ⊢
        exact hafter
      · rw [if_neg hcode] at hafter ⊢
        rw [← hnumber] at hafter
        exact ih (by omega) (by omega) hafter
    · refine hend i.toNat linear remaining machine hi (fun hleft ↦ ?_) hinvariant
      have hlast : ¬ i.toNat < volume.sectorsPerCluster.toNat := fun hinside ↦ hmore ⟨hinside, hleft⟩
      omega

/-- The sectors of cluster `step` of the chain, by their numbers in the file. -/
theorem fileSector_eq {step index : ℕ} (hindex : index < volume.sectorsPerCluster.toNat) :
    fileSector drive volume first (step * volume.sectorsPerCluster.toNat + index) =
      volume.firstDataSector + .ofNat 32
        ((chain drive volume first step - 2) * volume.sectorsPerCluster.toNat) + .ofNat 32 index := by
  have hcluster : (step * volume.sectorsPerCluster.toNat + index) / volume.sectorsPerCluster.toNat =
      step := by
    rw [Nat.mul_comm, Nat.mul_add_div (by omega), Nat.div_eq_of_lt hindex, Nat.add_zero]
  rw [fileSector, hcluster, Nat.mul_add_mod_self_right, Nat.mod_eq_of_lt hindex, BitVec.ofNat_add,
    BitVec.add_assoc]

/-- The inner loop reads the sectors of cluster `step` of the chain until the cluster or the file
ends. -/
theorem loadSectors_spec (hvolume : Fat12 drive volume) (hsize : 0x9000 + size ≤ 0xA0000) {step : ℕ}
    {linear remaining : Word} {machine : Machine}
    (hposition : Position drive volume first size (step * volume.sectorsPerCluster.toNat)
      linear remaining machine.memory) :
    Meets (handle drive 0x0500) Unrestricted
      (loadSectors volume (volume.firstDataSector + .ofNat 32
        ((chain drive volume first step - 2) * volume.sectorsPerCluster.toNat)) 256 0 linear remaining)
      machine fun out after ↦ machine.reads ≤ after.reads ∧
        (out = none ∧ ¬ AllSucceed drive machine.reads after.reads ∨
          ∃ sectors linear remaining, out = some (linear, remaining) ∧
            AllSucceed drive machine.reads after.reads ∧
            Position drive volume first size sectors linear remaining after.memory ∧
            sectors ≤ (step + 1) * volume.sectorsPerCluster.toNat ∧
            (0 < remaining.toNat → sectors = (step + 1) * volume.sectorsPerCluster.toNat)) := by
  have hbytes : volume.bytesPerSector.setWidth 32 = (512 : Word) := by
    rw [hvolume.bytesPerSector_eq]
    rfl
  have hlast : (step + 1) * volume.sectorsPerCluster.toNat =
      step * volume.sectorsPerCluster.toNat + volume.sectorsPerCluster.toNat := Nat.succ_mul _ _
  -- All reads so far succeeded, and the loop variables are those of the sectors read.
  apply meets_loadSectors (fun index linear remaining current ↦ machine.reads ≤ current.reads ∧
    AllSucceed drive machine.reads current.reads ∧
      Position drive volume first size (step * volume.sectorsPerCluster.toNat + index) linear remaining
        current.memory)
  · intro index linear remaining current hindex hleft ⟨hle, hall, hcurrent⟩
    apply meets_diskReadSector
    · intro hsuccess
      rw [if_neg (by decide), hbytes, hcurrent.address hsize hleft, ← fileSector_eq hindex]
      exact ⟨hle.trans (Nat.le_succ _), (hall.trans_iff hle _).mpr (allSucceed_one hsuccess),
        hcurrent.next hvolume.sectorsPerFat_le hsize hleft⟩
    · intro hfailure
      rw [if_pos (by decide)]
      exact ⟨hle.trans (Nat.le_succ _), .inl ⟨rfl, not_allSucceed hfailure hle (Nat.lt_succ_self _)⟩⟩
  · intro index linear remaining current hindex hwhole ⟨hle, hall, hcurrent⟩
    refine ⟨hle, .inr ⟨_, linear, remaining, rfl, hall, hcurrent, ?_, fun hleft ↦ ?_⟩⟩
    · rw [hlast]
      exact Nat.add_le_add_left hindex _
    · rw [hlast, hwhole hleft]
  · exact Nat.zero_le _
  · exact volume.sectorsPerCluster.isLt
  · exact ⟨le_rfl, allSucceed_self drive machine.reads, hposition⟩

variable (drive volume first size) in
/-- Every link the file needs, from `step` on, leads to a cluster. -/
def Links (step : ℕ) : Prop :=
  ∀ later, step ≤ later → (later + 1) * clusterSize volume < size →
    IsCluster volume (chain drive volume first (later + 1))

variable (drive volume first size) in
/-- How the outer loop ends: with 0 exactly if all its reads succeed and all links are good, and then
with the whole file in memory. -/
def Ends (step start : ℕ) (code : ℤ) (after : Machine) : Prop :=
  start ≤ after.reads ∧
    (code = 0 ↔ AllSucceed drive start after.reads ∧ Links drive volume first size step) ∧
    (code = 0 → ∀ index < size,
      after.memory (.ofNat 32 (0x9000 + index)) = fileByte drive volume first index)

theorem links_of_end {step sectors : ℕ} (hsectors : sectors ≤ (step + 1) * volume.sectorsPerCluster.toNat)
    (hsize : size ≤ 512 * sectors) : Links drive volume first size step := by
  intro later hlater hneeded
  have hend : size ≤ (later + 1) * clusterSize volume :=
    calc
      size ≤ 512 * sectors := hsize
      _ ≤ 512 * ((step + 1) * volume.sectorsPerCluster.toNat) := Nat.mul_le_mul_left 512 hsectors
      _ = (step + 1) * clusterSize volume := Nat.mul_left_comm _ _ _
      _ ≤ (later + 1) * clusterSize volume := Nat.mul_le_mul_right _ (Nat.succ_le_succ hlater)
  exact absurd hneeded (Nat.not_lt.mpr hend)

theorem links_succ {step : ℕ} (h : IsCluster volume (chain drive volume first (step + 1))) :
    Links drive volume first size step ↔ Links drive volume first size (step + 1) := by
  constructor
  · exact fun hlinks later hlater ↦ hlinks later ((Nat.le_succ step).trans hlater)
  · intro hlinks later hlater hneeded
    rcases Nat.eq_or_lt_of_le hlater with rfl | hlater
    · exact h
    · exact hlinks later hlater hneeded

theorem Ends.success {step start sectors : ℕ} {linear remaining : Word} {after : Machine}
    (hstart : start ≤ after.reads) (hall : AllSucceed drive start after.reads)
    (hposition : Position drive volume first size sectors linear remaining after.memory)
    (hsectors : sectors ≤ (step + 1) * volume.sectorsPerCluster.toNat) (hdone : remaining = 0) :
    Ends drive volume first size step start 0 after := by
  have hremaining := hposition.remaining_eq
  have hend : size ≤ 512 * sectors := by
    rw [hdone] at hremaining
    change 0 = _ at hremaining
    omega
  exact ⟨hstart, ⟨fun _ ↦ ⟨hall, links_of_end hsectors hend⟩, fun _ ↦ rfl⟩,
    fun _ index hindex ↦ hposition.loaded.bytes index (hindex.trans_le hend)⟩

theorem Ends.failure {step start : ℕ} {after : Machine} (hstart : start ≤ after.reads)
    (h : ¬ (AllSucceed drive start after.reads ∧ Links drive volume first size step)) :
    Ends drive volume first size step start (-1) after :=
  ⟨hstart, ⟨fun hcode ↦ absurd hcode (by decide), fun hgood ↦ absurd hgood h⟩,
    fun hcode ↦ absurd hcode (by decide)⟩

theorem Ends.after_reads {step start middle : ℕ} {code : ℤ} {after : Machine}
    (h : Ends drive volume first size step middle code after) (hstart : start ≤ middle)
    (hall : AllSucceed drive start middle) : Ends drive volume first size step start code after := by
  obtain ⟨hmiddle, hiff, hbytes⟩ := h
  refine ⟨hstart.trans hmiddle, ?_, hbytes⟩
  rw [hiff, hall.trans_iff hstart]

theorem Ends.after_link {step start : ℕ} {code : ℤ} {after : Machine}
    (h : Ends drive volume first size (step + 1) start code after)
    (hlink : IsCluster volume (chain drive volume first (step + 1))) :
    Ends drive volume first size step start code after := by
  obtain ⟨hstart, hiff, hbytes⟩ := h
  refine ⟨hstart, ?_, hbytes⟩
  rw [hiff, links_succ hlink]

theorem loadClusters_spec (haccepted : Accepted volume) (hvolume : Fat12 drive volume)
    (hsize : 0x9000 + size ≤ 0xA0000) {fuel step : ℕ} {cluster : BitVec 16} {linear remaining : Word}
    {machine : Machine} (hcluster : cluster.toNat = chain drive volume first step)
    (hvalid : IsCluster volume cluster.toNat) (hfuel : remaining.toNat < fuel)
    (hposition : Position drive volume first size (step * volume.sectorsPerCluster.toNat) linear
      remaining machine.memory) :
    Meets (handle drive 0x0500) Unrestricted (loadClusters volume fuel cluster linear remaining) machine
      (Ends drive volume first size step machine.reads) := by
  have hclusters := haccepted.sectorsPerCluster_pos
  have hcount := haccepted.clusterCount_lt
  have hcovers := hvolume.covers
  induction fuel generalizing step cluster linear remaining machine with
  | zero => omega
  | succ fuel ih =>
    unfold loadClusters
    split_ifs with hdone
    · exact Ends.success le_rfl (allSucceed_self drive machine.reads) hposition
        (Nat.mul_le_mul_right _ (Nat.le_succ step)) hdone
    have hlow := hvalid.1
    have hhigh := hvalid.2
    have hlba : volume.firstDataSector +
        (cluster.setWidth 32 - 2) * volume.sectorsPerCluster.setWidth 32 =
        volume.firstDataSector + .ofNat 32
          ((chain drive volume first step - 2) * volume.sectorsPerCluster.toNat) := by
      have hindex : cluster.setWidth 32 - 2 = BitVec.ofNat 32 (cluster.toNat - 2) := by bv_omega
      rw [hindex, ← BitVec.ofNat_toNat, ← hcluster, BitVec.ofNat_mul]
    rw [meets_bind, hlba]
    refine (loadSectors_spec hvolume hsize hposition).mono ?_
    intro out after ⟨hle, hcases⟩
    rcases hcases with ⟨rfl, hfailed⟩ | ⟨sectors, linear', remaining', rfl, hall, hafter, hsectors, hwhole⟩
    · exact Ends.failure hle fun hgood ↦ hfailed hgood.1
    dsimp only
    split_ifs with hzero
    · exact Ends.success hle hall hafter hsectors hzero
    have hmore : 0 < remaining'.toNat := by bv_omega
    obtain rfl := hwhole hmore
    have hremaining := hafter.remaining_eq
    have hneeded : (step + 1) * clusterSize volume < size := by
      rw [clusterSize, Nat.mul_left_comm]
      omega
    have htable : cluster.toNat + cluster.toNat / 2 + 1 < 512 * volume.sectorsPerFat.toNat := by omega
    rw [meets_bind]
    refine (fat12NextCluster_spec hafter.loaded.table (by omega) htable).mono ?_
    rintro next final ⟨hnext, rfl⟩
    have hchain : next.toNat = chain drive volume first (step + 1) := by
      rw [hnext, hcluster]
      rfl
    have hbad (hnot : ¬ IsCluster volume next.toNat) :
        Ends drive volume first size step machine.reads (-1) final :=
      Ends.failure hle fun hgood ↦ hnot (hchain ▸ hgood.2 step le_rfl hneeded)
    split_ifs with hmarked houtside
    · refine hbad fun hgood ↦ ?_
      have hhigh := hgood.2
      rw [hmarked] at hhigh
      change 0xFF7 ≤ _ at hhigh
      omega
    · refine hbad fun hgood ↦ ?_
      have hlow := hgood.1
      have hhigh := hgood.2
      bv_omega
    · have hgood : IsCluster volume next.toNat := by
        have hentry := hvolume.entries cluster.toNat hvalid
        rw [← hnext] at hentry
        rcases hentry with hfree | hgood | hend
        · bv_omega
        · exact hgood
        · bv_omega
      have hless : remaining'.toNat < fuel := by
        have hbefore := hposition.remaining_eq
        have hround : (step + 1) * volume.sectorsPerCluster.toNat =
          step * volume.sectorsPerCluster.toNat + volume.sectorsPerCluster.toNat := Nat.succ_mul _ _
        omega
      exact (ih hchain hgood hless hafter).mono fun code last hends ↦
        (hends.after_link (hchain ▸ hgood)).after_reads hle hall

end Loops

/-! ## The whole load -/

/-- Link `step + 1` is among the links the file needs if the clusters before it do not hold it. -/
theorem link_needed_iff {count size step : ℕ} (hcount : 0 < count) :
    step < (size + count - 1) / count - 1 ↔ (step + 1) * count < size := by
  have hdivision : step + 2 ≤ (size + count - 1) / count ↔ (step + 2) * count ≤ size + count - 1 :=
    Nat.le_div_iff_mul_le hcount
  have hproduct : (step + 2) * count = (step + 1) * count + count := Nat.succ_mul _ _
  omega

/-- **Loading a file.** On a FAT12 volume that `fat_init` has accepted, and with any pattern of
failing reads, `fat_load_file` returns for every loop bound above the file size. It returns 0 exactly
if every read it attempts succeeds and each link the file needs leads to a cluster, and then the file
is in memory from `0x9000` on. -/
theorem file_loaded {drive : Drive} {volume before : Volume} {booting booted : Machine}
    (haccepted : exec (handle drive 0x0500) (fatInit 0x0500 before) booting =
      some ((0, volume), booted))
    (hvolume : Fat12 drive volume) {firstCluster : BitVec 16} {fileSize : Word}
    (hfirst : IsCluster volume firstCluster.toNat) (hsize : 0x9000 + fileSize.toNat ≤ 0xA0000)
    (machine : Machine) {fuel : ℕ} (hfuel : fileSize.toNat < fuel) :
    ∃ code after, exec (handle drive 0x0500)
        (fatLoadFile fuel 0x0500 volume firstCluster fileSize kernelSeg) machine = some (code, after) ∧
      (code = 0 ↔ AllSucceed drive machine.reads after.reads ∧
        ∀ step < (fileSize.toNat + clusterSize volume - 1) / clusterSize volume - 1,
          IsCluster volume (chain drive volume firstCluster.toNat (step + 1))) ∧
      (code = 0 → ∀ index < fileSize.toNat, after.memory (.ofNat 32 (0x9000 + index)) =
        fileByte drive volume firstCluster.toNat index) := by
  have hchecked : Accepted volume := (fatInit_accepted before).of_exec haccepted rfl
  have hcluster : 0 < clusterSize volume := Nat.mul_pos (by decide) hchecked.sectorsPerCluster_pos
  have hload : Meets (handle drive 0x0500) Unrestricted
      (fatLoadFile fuel 0x0500 volume firstCluster fileSize kernelSeg) machine
      (Ends drive volume firstCluster.toNat fileSize.toNat 0 machine.reads) := by
    have hlow := hfirst.1
    unfold fatLoadFile
    rw [if_neg (by bv_omega), meets_bind]
    refine (fatReadTable_spec machine hvolume.bytesPerSector_eq hvolume.sectorsPerFat_le).mono ?_
    intro code middle ⟨hle, hcases⟩
    rcases hcases with ⟨rfl, hall, htable⟩ | ⟨rfl, hfailed⟩
    · rw [if_neg (by decide)]
      have hstart : Position drive volume firstCluster.toNat fileSize.toNat
          (0 * volume.sectorsPerCluster.toNat)
          ((0x0500 : BitVec 16).setWidth 32 <<< 4 + (kernelSeg.setWidth 16).setWidth 32) fileSize
          middle.memory := by
        rw [Nat.zero_mul]
        exact ⟨⟨htable, Memory.BytesAt.zero _ 0x9000 (fileByte drive volume _)⟩, rfl, fun _ ↦ rfl⟩
      exact (loadClusters_spec hchecked hvolume hsize rfl hfirst hfuel hstart).mono
        fun code last hends ↦ hends.after_reads hle hall
    · exact Ends.failure hle fun hgood ↦ hfailed hgood.1
  obtain ⟨code, after, hexec, -, hiff, hbytes⟩ := hload.exec
  refine ⟨code, after, hexec, hiff.trans (and_congr_right fun _ ↦ ?_), hbytes⟩
  unfold Links
  simp only [link_needed_iff hcluster, Nat.zero_le, forall_const]

theorem smallVolume_fat12 : Fat12 smallDrive smallVolume where
  bytesPerSector_eq := rfl
  sectorsPerFat_le := by decide
  covers := by decide
  entries := by
    intro cluster ⟨hlow, hhigh⟩
    change cluster ≤ 8 at hhigh
    interval_cases cluster <;> decide

/-- A file of 600 bytes in two clusters. -/
theorem file_loaded_two_clusters :
    ∃ after, exec (handle smallDrive 0x0500)
        (fatLoadFile 601 0x0500 smallVolume 2 600 kernelSeg) ⟨fun _ ↦ 0, 0⟩ = some (0, after) ∧
      after.memory 0x9000 = 3 ∧ after.memory 0x9200 = 4 := by
  have hfirst : IsCluster smallVolume (2 : BitVec 16).toNat := by decide
  have hsize : 0x9000 + (600 : Word).toNat ≤ 0xA0000 := by decide
  have hfuel : (600 : Word).toNat < 601 := by decide
  obtain ⟨code, after, hexec, hiff, hbytes⟩ :=
    file_loaded fatInit_smallDrive smallVolume_fat12 hfirst hsize ⟨fun _ ↦ 0, 0⟩ hfuel
  have hlinks : ∀ step < 1, IsCluster smallVolume (chain smallDrive smallVolume 2 (step + 1)) := by
    decide
  obtain rfl : code = 0 := hiff.mpr ⟨fun _ _ _ ↦ rfl, hlinks⟩
  exact ⟨after, hexec, hbytes rfl 0 (by decide), hbytes rfl 512 (by decide)⟩

end NeilOS.Loader
