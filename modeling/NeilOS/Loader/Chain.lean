import NeilOS.Loader.Buffers

/-!
# Chains that leave the volume

Which clusters a load reads is decided by the directory entry, the table on the disk and the reads
that fail. The source compares cluster numbers with the reserved values of FAT12 but not with the
number of clusters of the volume, so a load stays inside the volume exactly if the part of the chain
that it gets to does.
-/

namespace NeilOS.Loader

open Foundation Program

/-! ## The chain of a load -/

namespace Call

variable (call : Call)

/-- Byte `index` of the buffer of the table after some sectors of the table: each of them covers 512
bytes, and what none of them covers was in memory before. -/
def tableByte : ℕ → ℕ → Byte
  | 0, index => call.machine.memory (.ofNat 32 (0x7200 + index))
  | sectors + 1, index =>
    let start := sectors * call.volume.bytesPerSector.toNat
    if start ≤ index ∧ index < start + 512 then
      call.drive.sector (call.volume.firstFatSector + .ofNat 32 sectors) (index - start)
    else tableByte sectors index

/-- The cluster number after `step` links from the directory entry. -/
def cluster : ℕ → ℕ
  | 0 => call.firstCluster.toNat
  | step + 1 => tableEntry (call.tableByte call.volume.sectorsPerFat.toNat) (cluster step)

/-- The clusters before cluster `step` of the chain do not hold the file. -/
def Needs (step : ℕ) : Prop :=
  step * call.volume.sectorsPerCluster.toNat * call.volume.bytesPerSector.toNat < call.fileSize.toNat

/-- The load gets to cluster `step` of the chain: the file needs it, the reads of the table and of the
clusters before it succeed, and no number on the way is reserved. -/
structure Reached (step : ℕ) : Prop where
  needs : call.Needs step
  reads : AllSucceed call.drive call.machine.reads (call.machine.reads +
    call.volume.sectorsPerFat.toNat + step * call.volume.sectorsPerCluster.toNat)
  first : 2 ≤ call.cluster 0
  links : ∀ earlier < step, 2 ≤ call.cluster (earlier + 1) ∧ call.cluster (earlier + 1) < 0xFF7

/-- The call that stage 2 makes, with a table whose offsets stay in the data segment and a file that
ends below 1 MiB. -/
structure Straight : Prop where
  ds_eq : call.ds = 0x0500
  destination_eq : call.destination = kernelSeg
  table : 0x2200 + (call.volume.sectorsPerFat.toNat - 1) * call.volume.bytesPerSector.toNat < 2 ^ 16
  file : 0x9000 + call.fileSize.toNat ≤ 2 ^ 20

variable {call}

variable (call) in
/-- The buffer holds the bytes of `sectors` sectors of the table, as far as numbers of FAT12 clusters
can lead. -/
def Buffered (sectors : ℕ) (memory : Memory) : Prop :=
  ∀ index < 0x1E00, memory (.ofNat 32 (0x7200 + index)) = call.tableByte sectors index

theorem Buffered.next {sectors : ℕ} {memory : Memory} (h : call.Buffered sectors memory)
    (hoffset : 0x2200 + sectors * call.volume.bytesPerSector.toNat < 2 ^ 16) :
    call.Buffered (sectors + 1)
      (storeSector memory
        (.ofNat 32 (0x7200 + sectors * call.volume.bytesPerSector.toNat))
        (call.drive.sector (call.volume.firstFatSector + .ofNat 32 sectors))) := by
  intro index hindex
  rw [storeSector_eq, tableByte]
  split_ifs with hcovered
  · obtain ⟨offset, rfl⟩ := Nat.exists_eq_add_of_le hcovered.1
    rw [← Nat.add_assoc, Memory.storeBlock_inside (by decide) (by omega), Nat.add_sub_cancel_left]
  · rw [Memory.storeBlock_outside (by omega) (by omega) (by omega)]
    exact h index hindex

/-- The file is stored above the buffer. -/
theorem Buffered.storeFile {sectors number : ℕ} {memory : Memory} {sector : ℕ → Byte}
    (h : call.Buffered sectors memory) (hnumber : 0x9000 + number < 2 ^ 20) :
    call.Buffered sectors (storeSector memory (.ofNat 32 (0x9000 + number)) sector) := by
  intro index hindex
  rw [storeSector_eq, Memory.storeBlock_outside (by omega) (by omega) (by omega)]
  exact h index hindex

theorem fatReadTableFrom_buffered {machine : Machine} {left sectors : ℕ} (hstraight : call.Straight)
    (hcount : sectors + left = call.volume.sectorsPerFat.toNat)
    (hreads : machine.reads = call.machine.reads + sectors)
    (hall : AllSucceed call.drive call.machine.reads machine.reads)
    (hbuffer : call.Buffered sectors machine.memory) :
    Meets (handle call.drive call.ds) Unrestricted
      (fatReadTableFrom call.ds call.volume left (.ofNat 32 sectors)) machine fun code after ↦
        code = 0 ∧ after.reads = call.machine.reads + call.volume.sectorsPerFat.toNat ∧
            AllSucceed call.drive call.machine.reads after.reads ∧
            call.Buffered call.volume.sectorsPerFat.toNat after.memory ∨
          code = -1 ∧ ¬ AllSucceed call.drive call.machine.reads
            (call.machine.reads + call.volume.sectorsPerFat.toNat) := by
  induction left generalizing sectors machine with
  | zero =>
    rw [Nat.add_zero] at hcount
    rw [hcount] at hreads hbuffer
    exact .inl ⟨rfl, hreads, hall, hbuffer⟩
  | succ left ih =>
    have hle : sectors * call.volume.bytesPerSector.toNat ≤
        (call.volume.sectorsPerFat.toNat - 1) * call.volume.bytesPerSector.toNat :=
      Nat.mul_le_mul_right _ (by omega)
    have hoffset : 0x2200 + sectors * call.volume.bytesPerSector.toNat < 2 ^ 16 := by
      have htable := hstraight.table
      omega
    have haddress : linearAddress call.ds
        ((fatSeg + .ofNat 32 sectors * call.volume.bytesPerSector.setWidth 32).setWidth 16) =
        .ofNat 32 (0x7200 + sectors * call.volume.bytesPerSector.toNat) := by
      apply BitVec.eq_of_toNat_eq
      rw [hstraight.ds_eq, toNat_tableAddress hoffset, Word.toNat_ofNat_of_lt (by omega)]
    rw [fatReadTableFrom, meets_bind]
    apply meets_diskReadSector
    · intro hsuccess
      have hnext : BitVec.ofNat 32 sectors + 1 = BitVec.ofNat 32 (sectors + 1) :=
        (BitVec.ofNat_add sectors 1).symm
      rw [if_neg (by decide), hnext, haddress]
      apply ih
      · omega
      · rw [hreads, Nat.add_assoc]
      · exact (hall.trans_iff (by omega) _).mpr (allSucceed_one hsuccess)
      · exact hbuffer.next hoffset
    · intro hfailure
      rw [if_pos (by decide)]
      exact .inr ⟨rfl, not_allSucceed hfailure (by omega) (by omega)⟩

theorem fatReadTable_buffered (hstraight : call.Straight) :
    Meets (handle call.drive call.ds) Unrestricted (fatReadTable call.ds call.volume) call.machine
      fun code after ↦
        code = 0 ∧ after.reads = call.machine.reads + call.volume.sectorsPerFat.toNat ∧
            AllSucceed call.drive call.machine.reads after.reads ∧
            call.Buffered call.volume.sectorsPerFat.toNat after.memory ∨
          code = -1 ∧ ¬ AllSucceed call.drive call.machine.reads
            (call.machine.reads + call.volume.sectorsPerFat.toNat) :=
  fatReadTableFrom_buffered hstraight (Nat.zero_add _) rfl (allSucceed_self _ _) fun _ _ ↦ rfl

/-! ## Turns of the outer loop -/

variable (call) in
/-- The loop variables when the load gets to cluster `step` of the chain. -/
structure At (step : ℕ) (turn : Turn) : Prop where
  cluster_eq : turn.cluster.toNat = call.cluster step
  reads_eq : turn.machine.reads = call.machine.reads + call.volume.sectorsPerFat.toNat +
    step * call.volume.sectorsPerCluster.toNat
  succeeded : AllSucceed call.drive call.machine.reads turn.machine.reads
  cursor : Cursor call.volume call.start call.fileSize (step * call.volume.sectorsPerCluster.toNat)
    turn.linear turn.remaining
  buffered : call.Buffered call.volume.sectorsPerFat.toNat turn.machine.memory

theorem At.reached {step : ℕ} {turn : Turn} (h : call.At step turn) (hmore : turn.remaining ≠ 0)
    (hfirst : 2 ≤ call.cluster 0)
    (hlinks : ∀ earlier < step, 2 ≤ call.cluster (earlier + 1) ∧ call.cluster (earlier + 1) < 0xFF7) :
    call.Reached step where
  needs := by
    have hremaining := h.cursor.remaining_eq
    have hpositive : 0 < turn.remaining.toNat := by bv_omega
    unfold Needs
    omega
  reads := h.reads_eq ▸ h.succeeded
  first := hfirst
  links := hlinks

/-- The first turn, in the state that the table was read in. -/
theorem At.origin {after : Machine}
    (hreads : after.reads = call.machine.reads + call.volume.sectorsPerFat.toNat)
    (hall : AllSucceed call.drive call.machine.reads after.reads)
    (hbuffer : call.Buffered call.volume.sectorsPerFat.toNat after.memory) :
    call.At 0 (call.origin after) where
  cluster_eq := rfl
  reads_eq := by rw [Nat.zero_mul, Nat.add_zero]; exact hreads
  succeeded := hall
  cursor := by
    rw [Nat.zero_mul]
    exact Cursor.initial ..
  buffered := hbuffer

/-- The sectors of a cluster: a read fails, or all of the cluster is in memory. -/
theorem At.loadSectors {step : ℕ} {turn : Turn} (h : call.At step turn) (hstraight : call.Straight)
    (lba : Word) :
    Meets (handle call.drive call.ds) Unrestricted
      (loadSectors call.volume lba 256 0 turn.linear turn.remaining) turn.machine fun out after ↦
        out = none ∧ ¬ AllSucceed call.drive call.machine.reads (call.machine.reads +
            call.volume.sectorsPerFat.toNat + (step + 1) * call.volume.sectorsPerCluster.toNat) ∨
          ∃ sectors linear remaining, out = some (linear, remaining) ∧
            after.reads = call.machine.reads + call.volume.sectorsPerFat.toNat + sectors ∧
            AllSucceed call.drive call.machine.reads after.reads ∧
            Cursor call.volume call.start call.fileSize sectors linear remaining ∧
            call.Buffered call.volume.sectorsPerFat.toNat after.memory ∧
            sectors ≤ (step + 1) * call.volume.sectorsPerCluster.toNat ∧
            (0 < remaining.toNat → sectors = (step + 1) * call.volume.sectorsPerCluster.toNat) := by
  have hstart : call.start = .ofNat 32 0x9000 := by
    rw [Call.start, hstraight.ds_eq, hstraight.destination_eq, kernelStart_eq]
  have hlast : (step + 1) * call.volume.sectorsPerCluster.toNat =
      step * call.volume.sectorsPerCluster.toNat + call.volume.sectorsPerCluster.toNat :=
    Nat.succ_mul _ _
  -- The number of sectors read gives the loop variables; the buffer of the table is below all of them.
  apply meets_loadSectors (fun index linear remaining current ↦
    current.reads = call.machine.reads + call.volume.sectorsPerFat.toNat +
        (step * call.volume.sectorsPerCluster.toNat + index) ∧
      AllSucceed call.drive call.machine.reads current.reads ∧
      Cursor call.volume call.start call.fileSize
        (step * call.volume.sectorsPerCluster.toNat + index) linear remaining ∧
      call.Buffered call.volume.sectorsPerFat.toNat current.memory)
  · intro index linear remaining current hindex hleft hnow
    obtain ⟨hreads, hall, hcursor, hbuffer⟩ := hnow
    have hremaining := hcursor.remaining_eq
    have hfile := hstraight.file
    apply meets_diskReadSector
    · intro hsuccess
      have haddress : linearAddress ((linear >>> 4).setWidth 16) ((linear &&& 0xF).setWidth 16) =
          .ofNat 32 (0x9000 + (step * call.volume.sectorsPerCluster.toNat + index) *
            call.volume.bytesPerSector.toNat) := by
        apply BitVec.eq_of_toNat_eq
        rw [hcursor.linear_eq hleft, hstart, Word.toNat_ofNat_of_lt (by omega)]
        exact toNat_fileAddress (by omega)
      rw [if_neg (by decide), haddress]
      refine ⟨congrArg (· + 1) hreads, ?_, hcursor.next hleft, hbuffer.storeFile (by omega)⟩
      exact (hall.trans_iff (by omega) _).mpr (allSucceed_one hsuccess)
    · intro hfailure
      rw [if_pos (by decide)]
      exact .inl ⟨rfl, not_allSucceed hfailure (by omega) (by omega)⟩
  · intro index linear remaining current hindex hwhole hnow
    obtain ⟨hreads, hall, hcursor, hbuffer⟩ := hnow
    refine .inr ⟨_, linear, remaining, rfl, hreads, hall, hcursor, hbuffer, ?_, fun hleft ↦ ?_⟩
    · rw [hlast]
      exact Nat.add_le_add_left hindex _
    · rw [hlast, hwhole hleft]
  · exact Nat.zero_le _
  · exact call.volume.sectorsPerCluster.isLt
  · exact ⟨h.reads_eq, h.succeeded, h.cursor, h.buffered⟩

/-- A lookup in the buffer gives the next number of the chain. -/
theorem Buffered.lookup {step : ℕ} {cluster : BitVec 16} {machine : Machine}
    (h : call.Buffered call.volume.sectorsPerFat.toNat machine.memory)
    (hcluster : cluster.toNat = call.cluster step) (hsmall : cluster.toNat < 0xFF7)
    (hstraight : call.Straight) :
    Meets (handle call.drive call.ds) Unrestricted (fat12NextCluster fatSeg cluster) machine
      fun next after ↦ next.toNat = call.cluster (step + 1) ∧ after = machine := by
  rw [hstraight.ds_eq, Call.cluster, ← hcluster]
  exact fat12NextCluster_spec h (by omega) (by omega)

/-- After a round the load is at the next cluster of the chain. -/
theorem At.next {step : ℕ} {turn next : Turn} (h : call.At step turn)
    (hround : Round call.drive call.ds call.volume turn next) (hsmall : turn.cluster.toNat < 0xFF7)
    (hstraight : call.Straight) : call.At (step + 1) next := by
  obtain ⟨hsectors, hnonzero, hlookup⟩ := hround
  rcases (h.loadSectors hstraight _).of_exec hsectors with ⟨hnone, -⟩ |
    ⟨sectors, linear, remaining, hsome, hreads, hall, hcursor, hbuffer, -, hwhole⟩
  · cases hnone
  obtain ⟨rfl, rfl⟩ := Prod.mk.inj (Option.some.inj hsome)
  obtain rfl := hwhole (by bv_omega)
  obtain ⟨hcluster, rfl⟩ := (hbuffer.lookup h.cluster_eq hsmall hstraight).of_exec hlookup
  exact ⟨hcluster, hreads, hall, hcursor, hbuffer⟩

/-- Every turn of a load that only gets to clusters of the volume belongs to a cluster it gets to. -/
theorem Reads.at (haccepted : Accepted call.volume) (hstraight : call.Straight)
    (hreached : ∀ step, call.Reached step →
      call.cluster step ≤ call.volume.clusterCount.toNat + 1) {turn : Turn} (h : call.Reads turn) :
    ∃ step, call.At step turn ∧ call.Reached step := by
  obtain ⟨hfirst, after, hexec, hreads⟩ := h
  have hcount := haccepted.clusterCount_lt
  induction hreads with
  | first hmore =>
    rcases (fatReadTable_buffered hstraight).of_exec hexec with ⟨-, hreads, hall, hbuffer⟩ | ⟨hcode, -⟩
    · have hat : call.At 0 (call.origin after) := .origin hreads hall hbuffer
      exact ⟨0, hat, hat.reached hmore hfirst fun _ hearlier ↦ absurd hearlier (Nat.not_lt_zero _)⟩
    · cases hcode
  | next hreads hround hproceeds ih =>
    obtain ⟨step, hat, hhere⟩ := ih
    have hcluster := hreached step hhere
    rw [← hat.cluster_eq] at hcluster
    have hnext := hat.next hround (by omega) hstraight
    refine ⟨step + 1, hnext, hnext.reached (hreads.next hround hproceeds).remaining_ne hfirst ?_⟩
    intro earlier hearlier
    rcases Nat.lt_succ_iff_lt_or_eq.mp hearlier with hbefore | rfl
    · exact hhere.links earlier hbefore
    · rw [← hnext.cluster_eq]
      exact hproceeds

/-! ## The table on the disk -/

end Call

/-! ## Inside the volume -/

/-- A sector of the tables, or a sector of a cluster of the data area. -/
def Inside (volume : Volume) (lba : Word) : Prop :=
  volume.firstFatSector.toNat ≤ lba.toNat ∧ lba.toNat < volume.firstRootDirSector.toNat ∨
    volume.firstDataSector.toNat ≤ lba.toNat ∧ lba.toNat < volume.totalSectors.toNat ∧
      ∃ cluster index, IsCluster volume cluster ∧ index < volume.sectorsPerCluster.toNat ∧
        lba.toNat = volume.firstDataSector.toNat +
          (cluster - 2) * volume.sectorsPerCluster.toNat + index

end NeilOS.Loader
