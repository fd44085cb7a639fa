import NeilOS.Loader.Model
import NeilOS.Foundation.Block
import NeilOS.Foundation.Trace
import Mathlib.Data.Nat.Bitwise

/-!
# Sectors and the file allocation table

The rules for the loader's operations, and what `fat_read_table` and `fat12_next_cluster` do: the
table of the disk arrives in its buffer, and its packed 12-bit entries are read back.
-/

namespace NeilOS.Loader

open Foundation Program

/-- The sectors of the file allocation table, as one table of bytes. -/
def fatByte (drive : Drive) (volume : Volume) (index : ℕ) : Byte :=
  drive.sector (volume.firstFatSector + .ofNat 32 (index / 512)) (index % 512)

/-- Entry `number` of a table of packed 12-bit numbers: two entries share three little-endian
bytes. -/
def tableEntry (table : ℕ → Byte) (number : ℕ) : ℕ :=
  ((table (number + number / 2)).toNat + 256 * (table (number + number / 2 + 1)).toNat) /
    16 ^ (number % 2) % 4096

/-- All reads with numbers from `first` up to `last` succeed. -/
def AllSucceed (drive : Drive) (first last : ℕ) : Prop :=
  ∀ number, first ≤ number → number < last → drive.succeeds number = true

theorem allSucceed_self (drive : Drive) (number : ℕ) : AllSucceed drive number number :=
  fun _ hfirst hlast ↦ absurd hlast (Nat.not_lt.mpr hfirst)

theorem AllSucceed.trans_iff {drive : Drive} {first middle : ℕ}
    (h : AllSucceed drive first middle) (hfirst : first ≤ middle) (last : ℕ) :
    AllSucceed drive first last ↔ AllSucceed drive middle last := by
  constructor
  · exact fun hall number hnumber ↦ hall number (hfirst.trans hnumber)
  · intro hrest number hnumber hlast
    rcases Nat.lt_or_ge number middle with hlt | hge
    · exact h number hnumber hlt
    · exact hrest number hge hlast

/-! ## The operations -/

section Rules

variable {drive : Drive} {ds : BitVec 16} {machine : Machine} {guarantee : Machine → LoaderOp → Prop}

/-- No restriction on the operations of a program. -/
def Unrestricted (_ : Machine) (_ : LoaderOp) : Prop := True

/-- A restriction on the reads of a program: the disk address and the memory address of each. -/
def Allows (allowed : Machine → Word → Word → Prop) : Machine → LoaderOp → Prop
  | machine, .diskReadSector lba segment offset =>
      allowed machine lba (linearAddress segment offset)
  | _, .diskGetParams => True
  | _, .load _ => True

theorem meets_load_iff {pointer : Word} {post : Byte → Machine → Prop}
    (hload : guarantee machine (.load pointer)) :
    Meets (handle drive ds) guarantee (load pointer) machine post ↔
      post (machine.memory (linearAddress ds 0 + pointer)) machine := by
  simp [load, Meets, handle, hload]

@[simp]
theorem meets_load (pointer : Word) (post : Byte → Machine → Prop) :
    Meets (handle drive ds) Unrestricted (load pointer) machine post ↔
      post (machine.memory (linearAddress ds 0 + pointer)) machine :=
  meets_load_iff trivial

@[simp]
theorem meets_diskGetParams (post : ℤ → Machine → Prop) :
    Meets (handle drive ds) Unrestricted diskGetParams machine post ↔
      post (if drive.paramsKnown then 0 else -1) machine := by
  simp [diskGetParams, Meets, handle, Unrestricted]

theorem meets_read {lba : Word} {segment offset : BitVec 16} {post : ℤ → Machine → Prop}
    (hread : guarantee machine (.diskReadSector lba segment offset))
    (hsuccess : drive.succeeds machine.reads = true → post 0
      ⟨storeSector machine.memory (linearAddress segment offset) (drive.sector lba),
        machine.reads + 1⟩)
    (hfailure : drive.succeeds machine.reads = false → post (-1)
      ⟨drive.leaves machine.reads machine.memory, machine.reads + 1⟩) :
    Meets (handle drive ds) guarantee (diskReadSector lba segment offset) machine post := by
  refine ⟨hread, ?_⟩
  cases hreads : drive.succeeds machine.reads with
  | true => exact ⟨_, if_pos hreads, hsuccess hreads⟩
  | false => exact ⟨_, if_neg (by simp [hreads]), hfailure hreads⟩

theorem meets_diskReadSector {lba : Word} {segment offset : BitVec 16} {post : ℤ → Machine → Prop}
    (hsuccess : drive.succeeds machine.reads = true → post 0
      ⟨storeSector machine.memory (linearAddress segment offset) (drive.sector lba),
        machine.reads + 1⟩)
    (hfailure : drive.succeeds machine.reads = false → post (-1)
      ⟨drive.leaves machine.reads machine.memory, machine.reads + 1⟩) :
    Meets (handle drive ds) Unrestricted (diskReadSector lba segment offset) machine post :=
  meets_read trivial hsuccess hfailure

theorem allSucceed_one {number : ℕ} (h : drive.succeeds number = true) :
    AllSucceed drive number (number + 1) := by
  intro other hfirst hlast
  rwa [show other = number by omega]

theorem not_allSucceed {number first last : ℕ} (h : drive.succeeds number = false)
    (hfirst : first ≤ number) (hlast : number < last) : ¬ AllSucceed drive first last := by
  intro hall
  rw [hall number hfirst hlast] at h
  exact absurd h (by decide)

end Rules

/-! ## Stored sectors -/

theorem storeSector_eq (memory : Memory) (address : Word) (sector : ℕ → Byte) :
    storeSector memory address sector = memory.storeBlock address 512 sector := rfl

/-- Splitting a linear address below 1 MiB into a segment and an offset loses nothing. -/
theorem linearAddress_split {linear : Word} (h : linear.toNat < 2 ^ 20) :
    linearAddress ((linear >>> 4).setWidth 16) ((linear &&& 0xF).setWidth 16) = linear := by
  have hsegment : (linear >>> 4).toNat = linear.toNat / 16 := by
    rw [BitVec.toNat_ushiftRight, Nat.shiftRight_eq_div_pow]
  have hoffset : (linear &&& 0xF).toNat = linear.toNat % 16 := Word.toNat_and_low linear 4
  apply BitVec.eq_of_toNat_eq
  unfold linearAddress
  simp only [BitVec.toNat_add, BitVec.toNat_shiftLeft, BitVec.toNat_setWidth, Nat.shiftLeft_eq, hsegment,
    hoffset]
  omega

/-! ## The table in memory -/

/-- The buffer at `FAT_SEG` holds the first `count` bytes of the disk's table. -/
def TableAt (drive : Drive) (volume : Volume) (count : ℕ) (memory : Memory) : Prop :=
  ∀ index < count, memory (.ofNat 32 (0x7200 + index)) = fatByte drive volume index

theorem linearAddress_table {i : Word} (hi : i.toNat < 9) :
    linearAddress 0x0500 ((fatSeg + i * (512 : BitVec 16).setWidth 32).setWidth 16) =
      .ofNat 32 (0x7200 + 512 * i.toNat) := by
  apply BitVec.eq_of_toNat_eq
  unfold linearAddress fatSeg
  simp only [BitVec.ofNat_eq_ofNat, BitVec.toNat_add, BitVec.toNat_shiftLeft, BitVec.toNat_setWidth,
    BitVec.toNat_mul, BitVec.toNat_ofNat, Nat.shiftLeft_eq, Nat.reducePow, Nat.reduceMod]
  omega

theorem fatByte_eq {drive : Drive} {volume : Volume} {i : Word} {offset : ℕ} (hoffset : offset < 512) :
    fatByte drive volume (512 * i.toNat + offset) = drive.sector (volume.firstFatSector + i) offset := by
  have hsector : (512 * i.toNat + offset) / 512 = i.toNat := by omega
  have hinside : (512 * i.toNat + offset) % 512 = offset := by omega
  rw [fatByte, hsector, hinside, BitVec.ofNat_toNat, BitVec.setWidth_eq]

theorem TableAt.storeSector {drive : Drive} {volume : Volume} {memory : Memory} {i : Word}
    (h : TableAt drive volume (512 * i.toNat) memory) (hi : i.toNat < 9) :
    TableAt drive volume (512 * (i.toNat + 1))
      (storeSector memory (.ofNat 32 (0x7200 + 512 * i.toNat))
        (drive.sector (volume.firstFatSector + i))) := by
  have hbytes : memory.BytesAt 0x7200 (512 * i.toNat) (fatByte drive volume) := h
  rw [storeSector_eq, Nat.mul_succ]
  exact hbytes.extend (by omega) fun offset hoffset ↦ (fatByte_eq hoffset).symm

theorem fatReadTableFrom_spec {drive : Drive} {volume : Volume} {machine : Machine} {left : ℕ} {i : Word}
    (hbytes : volume.bytesPerSector = 512) (hcount : i.toNat + left ≤ 9)
    (htable : TableAt drive volume (512 * i.toNat) machine.memory) :
    Meets (handle drive 0x0500) Unrestricted (fatReadTableFrom 0x0500 volume left i) machine
      fun code after ↦ machine.reads ≤ after.reads ∧
        (code = 0 ∧ AllSucceed drive machine.reads after.reads ∧
            TableAt drive volume (512 * (i.toNat + left)) after.memory ∨
          code = -1 ∧ ¬ AllSucceed drive machine.reads after.reads) := by
  induction left generalizing i machine with
  | zero =>
    exact ⟨le_rfl, .inl ⟨rfl, allSucceed_self drive machine.reads, htable⟩⟩
  | succ left ih =>
    rw [fatReadTableFrom, hbytes, meets_bind]
    apply meets_diskReadSector
    · intro hsuccess
      have hnext : (i + 1).toNat = i.toNat + 1 := by bv_omega
      have hstored := htable.storeSector (by omega)
      rw [linearAddress_table (by omega), if_neg (by decide)]
      rw [← hnext] at hstored
      refine (ih (by omega) hstored).mono ?_
      intro code after ⟨hle, hcases⟩
      have hreads := (allSucceed_one hsuccess).trans_iff (Nat.le_succ _) after.reads
      rw [hreads, show i.toNat + (left + 1) = (i + 1).toNat + left by omega]
      exact ⟨(Nat.le_succ _).trans hle, hcases⟩
    · intro hfailure
      rw [if_pos (by decide)]
      exact ⟨Nat.le_succ _, .inr ⟨rfl, not_allSucceed hfailure le_rfl (Nat.lt_succ_self _)⟩⟩

theorem fatReadTable_spec {drive : Drive} {volume : Volume} (machine : Machine)
    (hbytes : volume.bytesPerSector = 512) (hcount : volume.sectorsPerFat.toNat ≤ 9) :
    Meets (handle drive 0x0500) Unrestricted (fatReadTable 0x0500 volume) machine
      fun code after ↦ machine.reads ≤ after.reads ∧
        (code = 0 ∧ AllSucceed drive machine.reads after.reads ∧
            TableAt drive volume (512 * volume.sectorsPerFat.toNat) after.memory ∨
          code = -1 ∧ ¬ AllSucceed drive machine.reads after.reads) := by
  have hempty : TableAt drive volume (512 * (0 : Word).toNat) machine.memory :=
    Memory.BytesAt.zero machine.memory 0x7200 (fatByte drive volume)
  have hrounds : (0 : Word).toNat + volume.sectorsPerFat.toNat ≤ 9 := by simpa using hcount
  simpa [fatReadTable] using fatReadTableFrom_spec hbytes hrounds hempty

/-! ## Entries -/

theorem toNat_widened (byte : Byte) : (byte.setWidth 16).toNat = byte.toNat :=
  BitVec.toNat_setWidth_of_le (by decide)

theorem toNat_and_entryMask (bits : BitVec 16) : (bits &&& 0x0FFF).toNat = bits.toNat % 4096 :=
  Nat.and_two_pow_sub_one_eq_mod bits.toNat 12

/-- An entry with an odd number: all of its high byte and half of its low byte. -/
theorem toNat_oddEntry (low high : Byte) :
    ((low.setWidth 16 >>> 4 ||| high.setWidth 16 <<< 4) &&& 0x0FFF : BitVec 16).toNat =
      (low.toNat + 256 * high.toNat) / 16 % 4096 := by
  have hlow := low.isLt
  have hhigh := high.isLt
  have hquotient : (low.setWidth 16 >>> 4).toNat = low.toNat / 16 := by
    rw [BitVec.toNat_ushiftRight, toNat_widened, Nat.shiftRight_eq_div_pow]
  have hbits : (low.setWidth 16 >>> 4 ||| high.setWidth 16 <<< 4).toNat =
      low.toNat / 16 + 2 ^ 4 * high.toNat := by
    rw [Word.toNat_or_shiftLeft (by omega) (by rw [toNat_widened]; omega), hquotient, toNat_widened]
  rw [toNat_and_entryMask, hbits]
  omega

/-- An entry with an even number: all of its low byte and half of its high byte. -/
theorem toNat_evenEntry (low high : Byte) :
    ((low.setWidth 16 ||| (high.setWidth 16 &&& 0x0F) <<< 8) &&& 0x0FFF : BitVec 16).toNat =
      (low.toNat + 256 * high.toNat) % 4096 := by
  have hlow := low.isLt
  have hhigh := high.isLt
  have hhalf : (high.setWidth 16 &&& 0x0F).toNat = high.toNat % 16 := by
    rw [BitVec.toNat_and, toNat_widened]
    exact Nat.and_two_pow_sub_one_eq_mod high.toNat 4
  have hbits : (low.setWidth 16 ||| (high.setWidth 16 &&& 0x0F) <<< 8).toNat =
      low.toNat + 2 ^ 8 * (high.toNat % 16) := by
    rw [Word.toNat_or_shiftLeft (by rw [toNat_widened]; omega) (by omega), hhalf, toNat_widened]
  rw [toNat_and_entryMask, hbits]
  omega

theorem tablePointer_eq (offset : BitVec 16) :
    linearAddress 0x0500 0 + (fatSeg + offset.setWidth 32) = .ofNat 32 (0x7200 + offset.toNat) ∧
      linearAddress 0x0500 0 + (fatSeg + offset.setWidth 32 + 1) =
        .ofNat 32 (0x7200 + (offset.toNat + 1)) := by
  have hoffset := offset.isLt
  have hsegment : linearAddress 0x0500 0 = 0x5000 := rfl
  have hpointer : (fatSeg + offset.setWidth 32).toNat = 0x2200 + offset.toNat := by
    rw [BitVec.toNat_add, BitVec.toNat_setWidth]
    change (0x2200 + offset.toNat % 2 ^ 32) % 2 ^ 32 = _
    omega
  rw [hsegment]
  generalize fatSeg + offset.setWidth 32 = pointer at hpointer
  constructor <;> bv_omega

theorem odd_iff (cluster : BitVec 16) : cluster &&& 1 ≠ 0 ↔ cluster.toNat % 2 = 1 := by
  rw [← BitVec.toNat_inj.ne]
  change cluster.toNat &&& 1 ≠ 0 ↔ _
  rw [Nat.and_one_is_mod]
  omega

/-- The entry is put together from two bytes, whatever they are. -/
theorem fat12NextCluster_performs (drive : Drive) (ds : BitVec 16) (fat : Word) (cluster : BitVec 16)
    (machine : Machine) {low high : Byte}
    (hlow : machine.memory (linearAddress ds 0 + (fat + (cluster + cluster / 2).setWidth 32)) = low)
    (hhigh : machine.memory
      (linearAddress ds 0 + (fat + (cluster + cluster / 2).setWidth 32 + 1)) = high) :
    ∃ next, Performs (handle drive ds) (fat12NextCluster fat cluster) machine
        [.load (fat + (cluster + cluster / 2).setWidth 32),
          .load (fat + (cluster + cluster / 2).setWidth 32 + 1)] next machine ∧
      next.toNat = (low.toNat + 256 * high.toNat) / 16 ^ (cluster.toNat % 2) % 4096 := by
  have hfirst : Performs (handle drive ds) (load (fat + (cluster + cluster / 2).setWidth 32)) machine
      [.load (fat + (cluster + cluster / 2).setWidth 32)] low machine :=
    performs_call (congrArg (fun byte ↦ some (byte, machine)) hlow)
  have hsecond : Performs (handle drive ds) (load (fat + (cluster + cluster / 2).setWidth 32 + 1))
      machine [.load (fat + (cluster + cluster / 2).setWidth 32 + 1)] high machine :=
    performs_call (congrArg (fun byte ↦ some (byte, machine)) hhigh)
  unfold fat12NextCluster
  by_cases hodd : cluster &&& 1 ≠ 0
  · simp only [if_pos hodd]
    refine ⟨_, hfirst.bind (hsecond.bind (performs_pure _ machine)), ?_⟩
    rw [toNat_oddEntry, (odd_iff cluster).mp hodd]
    rfl
  · have heven : cluster.toNat % 2 = 0 := by
      have := (odd_iff cluster).not.mp hodd
      omega
    simp only [if_neg hodd]
    refine ⟨_, hfirst.bind (hsecond.bind (performs_pure _ machine)), ?_⟩
    rw [toNat_evenEntry, heven, pow_zero, Nat.div_one]

theorem fatOffset_eq {cluster : BitVec 16} (hcluster : cluster.toNat < 4096) :
    (cluster + cluster / 2).toNat = cluster.toNat + cluster.toNat / 2 := by
  rw [BitVec.toNat_add, BitVec.toNat_udiv]
  change (cluster.toNat + cluster.toNat / 2) % 65536 = _
  omega

theorem fat12NextCluster_spec {drive : Drive} {table : ℕ → Byte} {machine : Machine}
    {cluster : BitVec 16} {size : ℕ}
    (htable : ∀ index < size, machine.memory (.ofNat 32 (0x7200 + index)) = table index)
    (hcluster : cluster.toNat < 4096) (hsize : cluster.toNat + cluster.toNat / 2 + 1 < size) :
    Meets (handle drive 0x0500) Unrestricted (fat12NextCluster fatSeg cluster) machine
      fun next after ↦ next.toNat = tableEntry table cluster.toNat ∧ after = machine := by
  obtain ⟨hlow, hhigh⟩ := tablePointer_eq (cluster + cluster / 2)
  rw [fatOffset_eq hcluster] at hlow hhigh
  obtain ⟨next, hperforms, hnext⟩ := fat12NextCluster_performs drive 0x0500 fatSeg cluster machine
    ((congrArg machine.memory hlow).trans (htable _ ((Nat.lt_succ_self _).trans hsize)))
    ((congrArg machine.memory hhigh).trans (htable _ hsize))
  exact (meets_iff _ _ _).mpr ⟨fun _ _ ↦ trivial, next, machine, hperforms.exec_eq, hnext, rfl⟩

end NeilOS.Loader
