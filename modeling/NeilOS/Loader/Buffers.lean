import NeilOS.Loader.Walk

/-!
# Where the loader stores

The table has a buffer of nine sectors and the file an area that ends at `0xA0000`, but the numbers
that decide how much is stored come from the disk. The condition under which every sector of a load is
stored where it belongs is an inequality for each of the two areas. It is also necessary: on a disk
whose sectors are filled with one byte the chain never ends, so every sector of the table and of the
file is stored.
-/

namespace NeilOS.Loader

open Foundation Program

/-- The memory address that read `number` of a load should have: the sectors of the table in the
buffer at `FAT_SEG`, then the sectors of the file in the load area. -/
def InBuffers (volume : Volume) (number address : ℕ) : Prop :=
  if number < volume.sectorsPerFat.toNat then
    address = 0x7200 + number * volume.bytesPerSector.toNat ∧ address + 512 ≤ 0x8400
  else
    address = 0x9000 + (number - volume.sectorsPerFat.toNat) * volume.bytesPerSector.toNat ∧
      address + 512 ≤ 0xA0000

/-- Every read of a load stores its 512 bytes where they belong. -/
def Call.StaysInBuffers (call : Call) (fuel : ℕ) : Prop :=
  ∀ event ∈ events (handle call.drive call.ds) (call.program fuel) call.machine,
    ∀ lba segment offset, event.2 = .diskReadSector lba segment offset →
      InBuffers call.volume (event.1.reads - call.machine.reads) (linearAddress segment offset).toNat

/-- The table fits its buffer, and the file fits the load area. -/
structure FitsBuffers (volume : Volume) (fileSize : Word) : Prop where
  table : (volume.sectorsPerFat.toNat - 1) * volume.bytesPerSector.toNat + 512 ≤ 0x1200
  file : fileSize = 0 ∨
    0x9000 + (fileSize.toNat ⌈/⌉ volume.bytesPerSector.toNat - 1) * volume.bytesPerSector.toNat + 512 ≤
      0xA0000

/-! ## Sufficient -/

/-- The offsets of the table's sectors do not wrap as long as they stay in the data segment. -/
theorem toNat_tableAddress {volume : Volume} {sectors : ℕ}
    (h : 0x2200 + sectors * volume.bytesPerSector.toNat < 2 ^ 16) :
    (linearAddress 0x0500
      ((fatSeg + .ofNat 32 sectors * volume.bytesPerSector.setWidth 32).setWidth 16)).toNat =
        0x7200 + sectors * volume.bytesPerSector.toNat := by
  have hword : BitVec.ofNat 32 sectors * volume.bytesPerSector.setWidth 32 =
      BitVec.ofNat 32 (sectors * volume.bytesPerSector.toNat) := by
    rw [BitVec.ofNat_mul, BitVec.ofNat_toNat]
  rw [hword]
  unfold linearAddress fatSeg
  simp only [BitVec.ofNat_eq_ofNat, BitVec.toNat_add, BitVec.toNat_shiftLeft, BitVec.toNat_setWidth,
    BitVec.toNat_ofNat, Nat.shiftLeft_eq, Nat.reducePow, Nat.reduceMod]
  omega

theorem kernelStart_eq : (0x0500 : BitVec 16).setWidth 32 <<< 4 +
    (kernelSeg.setWidth 16).setWidth 32 = BitVec.ofNat 32 0x9000 := rfl

theorem toNat_fileAddress {number : ℕ} (h : 0x9000 + number < 2 ^ 20) :
    (sectorAddress (.ofNat 32 0x9000 + .ofNat 32 number)).toNat = 0x9000 + number := by
  have hnumber : (BitVec.ofNat 32 0x9000 + BitVec.ofNat 32 number).toNat = 0x9000 + number := by
    rw [← BitVec.ofNat_add, Word.toNat_ofNat_of_lt (by omega)]
  rw [sectorAddress, linearAddress_split (by omega), hnumber]

/-- A sector starts before the end of the file if it is not behind the last one. -/
theorem mul_lt_iff_le_ceilDiv {count size bytes : ℕ} (hbytes : 0 < bytes) (hsize : 0 < size) :
    count * bytes < size ↔ count ≤ size ⌈/⌉ bytes - 1 := by
  have hceil : size ⌈/⌉ bytes ≤ count ↔ size ≤ bytes * count := ceilDiv_le_iff_le_mul hbytes
  rw [Nat.mul_comm] at hceil
  have hpositive : ¬ size ⌈/⌉ bytes ≤ 0 := by
    rw [ceilDiv_le_iff_le_mul hbytes]
    omega
  omega

theorem FitsBuffers.stays {call : Call} (h : FitsBuffers call.volume call.fileSize)
    (hareas : Areas call.volume) (hds : call.ds = 0x0500) (hdestination : call.destination = kernelSeg)
    {fuel : ℕ} (hfuel : call.fileSize.toNat < fuel) : call.StaysInBuffers fuel := by
  have hstart : call.start = .ofNat 32 0x9000 := by
    rw [Call.start, hds, hdestination, kernelStart_eq]
  rintro ⟨state, op⟩ hevent lba segment offset rfl
  rcases (call.reads_spec hareas hfuel).events _ hevent with
    ⟨sectors, hsectors, hreads, -, haddress⟩ | ⟨⟨sectors, hreads, hinside, haddress⟩, -⟩
  · have htable := h.table
    have hproduct : sectors * call.volume.bytesPerSector.toNat ≤
        (call.volume.sectorsPerFat.toNat - 1) * call.volume.bytesPerSector.toNat :=
      Nat.mul_le_mul_right _ (by omega)
    have hcount : state.reads = call.machine.reads + sectors := hreads
    have hnumber : state.reads - call.machine.reads = sectors := by omega
    rw [InBuffers, hnumber, if_pos hsectors, haddress, hds, toNat_tableAddress (by omega)]
    omega
  · have hnonempty : call.fileSize ≠ 0 := by
      rintro hempty
      rw [hempty] at hinside
      simp at hinside
    have hfile := h.file.resolve_left hnonempty
    have hproduct : sectors * call.volume.bytesPerSector.toNat ≤
        (call.fileSize.toNat ⌈/⌉ call.volume.bytesPerSector.toNat - 1) *
          call.volume.bytesPerSector.toNat :=
      Nat.mul_le_mul_right _
        ((mul_lt_iff_le_ceilDiv hareas.bytesPerSector_pos (by omega)).mp hinside)
    have hcount : state.reads =
        call.machine.reads + call.volume.sectorsPerFat.toNat + sectors := hreads
    have hnumber : state.reads - call.machine.reads =
        call.volume.sectorsPerFat.toNat + sectors := by omega
    rw [InBuffers, hnumber, if_neg (by omega), Nat.add_sub_cancel_left, haddress, hstart,
      toNat_fileAddress (by omega)]
    omega

/-! ## Necessary -/

/-- Reads are numbered without gaps: a run performs every read up to its last one. -/
theorem exists_read_event {drive : Drive} {ds : BitVec 16} {α : Type} {program : LoaderProgram α}
    {machine after : Machine} {value : α} {number : ℕ}
    (hexec : exec (handle drive ds) program machine = some (value, after))
    (hlow : machine.reads ≤ number) (hhigh : number < after.reads) :
    ∃ state lba segment offset, state.reads = number ∧
      (state, .diskReadSector lba segment offset) ∈ events (handle drive ds) program machine := by
  induction program generalizing machine with
  | result value =>
    obtain ⟨-, rfl⟩ := Prod.mk.inj (Option.some.inj hexec)
    omega
  | diverge => cases hexec
  | perform op rest ih =>
    cases hreply : handle drive ds op machine with
    | none => simp [exec, hreply] at hexec
    | some reply =>
      obtain ⟨answer, middle⟩ := reply
      simp only [exec, hreply, Option.bind_some] at hexec
      have hrest (hmiddle : middle.reads ≤ number) :
          ∃ state lba segment offset, state.reads = number ∧
            (state, .diskReadSector lba segment offset) ∈
              events (handle drive ds) (.perform op rest) machine := by
        obtain ⟨state, lba, segment, offset, hstate, hmem⟩ := ih answer hexec hmiddle
        refine ⟨state, lba, segment, offset, hstate, List.mem_cons_of_mem _ ?_⟩
        rw [hreply]
        exact hmem
      cases op with
      | diskGetParams =>
        obtain ⟨-, rfl⟩ := Prod.mk.inj (Option.some.inj hreply)
        exact hrest hlow
      | load pointer =>
        obtain ⟨-, rfl⟩ := Prod.mk.inj (Option.some.inj hreply)
        exact hrest hlow
      | diskReadSector lba segment offset =>
        by_cases hfirst : machine.reads = number
        · exact ⟨machine, lba, segment, offset, hfirst, List.mem_cons_self⟩
        · apply hrest
          have hreads : middle.reads = machine.reads + 1 := by
            simp only [handle] at hreply
            split at hreply
            all_goals
              obtain ⟨-, rfl⟩ := Prod.mk.inj (Option.some.inj hreply)
              rfl
          omega

/-- A disk with the given boot sector on which every other byte is `0x22`, so that every entry of the
table is `0x222`. All reads succeed. -/
def filledDrive (boot : ℕ → Byte) : Drive where
  paramsKnown := true
  sector lba index := if lba = 0 then boot index else 0x22
  succeeds _ := true
  leaves _ memory := memory

def Filled (machine : Machine) : Prop := machine.memory = fun _ ↦ 0x22

section Filled

variable {boot : ℕ → Byte} {ds : BitVec 16}

/-- Memory stays filled unless the boot sector is read. -/
theorem meets_filled {α : Type} {program : LoaderProgram α} {machine : Machine}
    {allowed : Machine → Word → Word → Prop} {post : α → Machine → Prop}
    (h : Meets (handle (filledDrive boot) ds) (Allows allowed) program machine post)
    (hboot : ∀ state lba address, allowed state lba address → lba ≠ 0) (hfilled : Filled machine) :
    Meets (handle (filledDrive boot) ds) (Allows allowed) program machine fun value after ↦
      post value after ∧ Filled after := by
  induction program generalizing machine with
  | result value => exact ⟨h, hfilled⟩
  | diverge => exact h
  | perform op rest ih =>
    obtain ⟨hallowed, reply, hreply, hrest⟩ := h
    refine ⟨hallowed, reply, hreply, ih reply.1 hrest ?_⟩
    cases op with
    | diskGetParams =>
      rw [← Option.some.inj hreply]
      exact hfilled
    | load pointer =>
      rw [← Option.some.inj hreply]
      exact hfilled
    | diskReadSector lba segment offset =>
      have hlba : lba ≠ 0 := hboot _ _ _ hallowed
      rw [← Option.some.inj hreply]
      funext target
      change (if _ then (if lba = 0 then _ else _) else machine.memory target) = _
      rw [if_neg hlba, hfilled, ite_self]

/-- On filled memory every table lookup gives `0x222`. -/
theorem fat12NextCluster_filled {machine : Machine} (hfilled : Filled machine) (cluster : BitVec 16) :
    Meets (handle (filledDrive boot) ds) Unrestricted (fat12NextCluster fatSeg cluster) machine
      fun next after ↦ next = 0x222 ∧ after = machine := by
  unfold fat12NextCluster
  rw [meets_bind, meets_load, meets_bind, meets_load, hfilled]
  dsimp only
  split_ifs
  · exact ⟨by decide, rfl⟩
  · exact ⟨by decide, rfl⟩

/-- On a filled disk the outer loop reads the whole file. -/
theorem loadClusters_filled {volume : Volume} (hareas : Areas volume) {turn : Turn} {fuel first sectors : ℕ}
    {start size : Word} (hcluster : 2 ≤ turn.cluster.toNat) (hfilled : Filled turn.machine)
    (hfuel : turn.remaining.toNat < fuel) (hreads : turn.machine.reads = first + sectors)
    (hcursor : Cursor volume start size sectors turn.linear turn.remaining) :
    Meets (handle (filledDrive boot) ds) Unrestricted (turn.load volume fuel) turn.machine
      fun code after ↦ code = 0 ∧ ∃ loaded, after.reads = first + loaded ∧
        size.toNat ≤ loaded * volume.bytesPerSector.toNat := by
  induction fuel generalizing turn sectors with
  | zero => omega
  | succ fuel ih =>
    have hfinished {count : ℕ} {linear remaining : Word}
        (h : Cursor volume start size count linear remaining) (hzero : remaining = 0) :
        size.toNat ≤ count * volume.bytesPerSector.toNat := by
      have hremaining := h.remaining_eq
      rw [hzero] at hremaining
      change 0 = _ at hremaining
      omega
    unfold Turn.load loadClusters
    split_ifs with hdone
    · exact ⟨rfl, sectors, hreads, hfinished hcursor hdone⟩
    have hsectors : Meets (handle (filledDrive boot) ds) _
        (loadSectors volume (clusterSector volume turn.cluster) 256 0 turn.linear turn.remaining)
        turn.machine _ :=
      loadSectors_reads hreads hcursor
    rw [meets_bind]
    refine ((meets_filled hsectors.with_exec ?_ hfilled).allow fun _ _ _ ↦ trivial).mono ?_
    · rintro state lba address ⟨-, index, hindex, hlba⟩
      have hnumber := hareas.toNat_clusterSector hcluster hindex
      have hpositive := hareas.firstFatSector_pos
      have htable := hareas.table_le
      have hroot := hareas.rootDir_le
      rw [hlba]
      bv_omega
    rintro out middle ⟨⟨⟨-, number, hfailed⟩ |
      ⟨count, linear, remaining, rfl, hmiddle, hnext, -⟩, hexec⟩, hstill⟩
    · exact absurd hfailed (by simp [filledDrive])
    dsimp only
    split_ifs with hzero
    · exact ⟨rfl, count, hmiddle, hfinished hnext hzero⟩
    rw [meets_bind]
    refine (fat12NextCluster_filled hstill turn.cluster).with_exec.mono ?_
    rintro cluster after ⟨⟨rfl, rfl⟩, hlookup⟩
    have hround : Round (filledDrive boot) ds volume turn ⟨0x222, linear, remaining, after⟩ :=
      .lookup hexec hzero hlookup
    have hless : remaining.toNat < turn.remaining.toNat :=
      hround.remaining_lt hareas.sectorsPerCluster_pos hareas.bytesPerSector_pos hdone
    rw [if_neg (by decide), if_neg (by decide)]
    have htwo : 2 ≤ (⟨0x222, linear, remaining, after⟩ : Turn).cluster.toNat :=
      (by decide : 2 ≤ (0x222 : BitVec 16).toNat)
    exact ih htwo hstill (by simp only; omega) hmiddle hnext

/-- A load from the filled disk into filled memory. -/
def filledCall (boot : ℕ → Byte) (volume : Volume) (fileSize : Word) : Call :=
  ⟨filledDrive boot, 0x0500, volume, 0x222, fileSize, kernelSeg, ⟨fun _ ↦ 0x22, 0⟩⟩

theorem filledCall_reads {volume : Volume} (hareas : Areas volume) {fileSize : Word} {fuel : ℕ}
    (hfuel : fileSize.toNat < fuel) :
    Meets (handle (filledDrive boot) 0x0500) Unrestricted ((filledCall boot volume fileSize).program fuel)
      ⟨fun _ ↦ 0x22, 0⟩ fun code after ↦ code = 0 ∧
        ∃ loaded, after.reads = volume.sectorsPerFat.toNat + loaded ∧
          fileSize.toNat ≤ loaded * volume.bytesPerSector.toNat := by
  have htable := meets_filled
    (fatReadTable_reads (filledDrive boot) 0x0500 volume ⟨fun _ ↦ 0x22, 0⟩)
    (fun _ lba _ ⟨sectors, hsectors, _, hlba, _⟩ ↦ by
      have hpositive := hareas.firstFatSector_pos
      have htable := hareas.table_le
      have hroot := hareas.rootDir_le
      have hdata := hareas.firstDataSector_lt
      have hnumber := Word.toNat_ofNat_of_lt (by omega : sectors < 2 ^ 32)
      rw [hlba]
      bv_omega) rfl
  have hfirst : ¬ (filledCall boot volume fileSize).firstCluster < 2 :=
    (by decide : ¬ (0x222 : BitVec 16) < 2)
  unfold Call.program fatLoadFile
  dsimp only
  rw [if_neg hfirst, meets_bind]
  refine (htable.allow fun _ _ _ ↦ trivial).mono ?_
  rintro code after ⟨⟨rfl, hreads⟩ | ⟨-, number, hfailed⟩, hfilled⟩
  · rw [if_neg (by decide)]
    have hreads : after.reads = volume.sectorsPerFat.toNat + 0 := by
      rw [hreads]
      simp
    have hcluster : 2 ≤ ((filledCall boot volume fileSize).origin after).cluster.toNat :=
      (by decide : 2 ≤ (0x222 : BitVec 16).toNat)
    exact loadClusters_filled hareas hcluster hfilled hfuel hreads (Cursor.initial ..)
  · exact absurd hfailed (by simp [filledDrive])

end Filled

/-- If the filled disk is loaded within the buffers, table and file fit them. -/
theorem FitsBuffers.of_filled {boot : ℕ → Byte} {volume : Volume} (hareas : Areas volume)
    {fileSize : Word} {fuel : ℕ} (hfuel : fileSize.toNat < fuel)
    (h : (filledCall boot volume fileSize).StaysInBuffers fuel) : FitsBuffers volume fileSize := by
  have hbytes := hareas.bytesPerSector_pos
  have hfat := hareas.sectorsPerFat_pos
  obtain ⟨code, after, hexec, rfl, loaded, hreads, hloaded⟩ :=
    (@filledCall_reads boot volume hareas fileSize fuel hfuel).exec
  -- The read with a given number stays in the buffers.
  have hread {number : ℕ} (hnumber : number < after.reads) :
      ∃ address, InBuffers volume number address := by
    obtain ⟨state, lba, segment, offset, rfl, hevent⟩ :=
      exists_read_event hexec (Nat.zero_le number) hnumber
    exact ⟨_, h _ hevent lba segment offset rfl⟩
  constructor
  · obtain ⟨address, hplace⟩ := hread (by omega : volume.sectorsPerFat.toNat - 1 < after.reads)
    rw [InBuffers, if_pos (by omega)] at hplace
    omega
  · by_cases hempty : fileSize = 0
    · exact .inl hempty
    have hpositive : 0 < fileSize.toNat := by bv_omega
    have hcount : fileSize.toNat ⌈/⌉ volume.bytesPerSector.toNat ≤ loaded :=
      (ceilDiv_le_iff_le_mul hbytes).mpr (by rw [Nat.mul_comm]; exact hloaded)
    have hsome : ¬ fileSize.toNat ⌈/⌉ volume.bytesPerSector.toNat ≤ 0 := by
      rw [ceilDiv_le_iff_le_mul hbytes]
      omega
    obtain ⟨address, hplace⟩ := hread (by omega : volume.sectorsPerFat.toNat +
      (fileSize.toNat ⌈/⌉ volume.bytesPerSector.toNat - 1) < after.reads)
    rw [InBuffers, if_neg (by omega), Nat.add_sub_cancel_left] at hplace
    exact .inr (by omega)

/-- On an accepted volume, the loads of files of one size store every sector where it belongs, for
every table, every first cluster and every pattern of failing reads, exactly if the table fits its
buffer and the file fits the load area. The source does not check either. -/
theorem load_in_buffers_iff {drive : Drive} {before volume : Volume} {booting booted : Machine}
    (haccepted : exec (handle drive 0x0500) (fatInit 0x0500 before) booting =
      some ((0, volume), booted)) (fileSize : Word) :
    (∀ (other : Drive) (firstCluster : BitVec 16) (machine : Machine) (fuel : ℕ),
      other.sector 0 = drive.sector 0 → fileSize.toNat < fuel →
        (⟨other, 0x0500, volume, firstCluster, fileSize, kernelSeg, machine⟩ : Call).StaysInBuffers
          fuel) ↔
      FitsBuffers volume fileSize := by
  have hareas : Areas volume := (fatInit_areas before).of_exec haccepted rfl
  constructor
  · intro hall
    have hboot : (filledDrive (drive.sector 0)).sector 0 = drive.sector 0 := by
      funext index
      simp [filledDrive]
    exact .of_filled hareas (Nat.lt_succ_self _)
      (hall (filledDrive (drive.sector 0)) 0x222 ⟨fun _ ↦ 0x22, 0⟩ _ hboot (Nat.lt_succ_self _))
  · intro hfits other firstCluster machine fuel _ hfuel
    exact hfits.stays hareas rfl rfl hfuel

/-- Files of 600 bytes on the small volume. -/
theorem load_in_buffers_iff_small_volume : FitsBuffers smallVolume 600 ∧
    ∀ (other : Drive) (firstCluster : BitVec 16) (machine : Machine) (fuel : ℕ),
      other.sector 0 = smallDrive.sector 0 → (600 : Word).toNat < fuel →
        (⟨other, 0x0500, smallVolume, firstCluster, 600, kernelSeg, machine⟩ : Call).StaysInBuffers
          fuel := by
  have hfits : FitsBuffers smallVolume 600 := ⟨by decide, .inr (by decide)⟩
  exact ⟨hfits, (load_in_buffers_iff fatInit_smallDrive 600).mpr hfits⟩

/-- The boot sector of a volume with 512-byte sectors and a table of ten sectors. -/
def largeTableBoot (index : ℕ) : Byte :=
  match index with
  | 12 => 2
  | 13 => 1
  | 14 => 1
  | 16 => 1
  | 17 => 16
  | 19 => 20
  | 22 => 10
  | _ => 0

def largeTableVolume : Volume where
  numFats := 1
  sectorsPerCluster := 1
  bytesPerSector := 512
  reservedSectors := 1
  rootEntryCount := 16
  totalSectors := 20
  sectorsPerFat := 10
  rootDirSectors := 1
  firstDataSector := 12
  firstFatSector := 1
  firstRootDirSector := 11
  dataSectors := 8
  clusterCount := 8
  rootDirFirstSector := 11

/-- `fat_init` accepts the volume, and a load succeeds after it has stored the tenth sector of the
table at `0x8400`, behind the buffer of the table and over the one of the root directory. -/
theorem table_stored_behind_buffer : ∃ booted after state,
    exec (handle (filledDrive largeTableBoot) 0x0500) (fatInit 0x0500 smallVolume) ⟨fun _ ↦ 0, 0⟩ =
      some ((0, largeTableVolume), booted) ∧
    exec (handle (filledDrive largeTableBoot) 0x0500)
      ((filledCall largeTableBoot largeTableVolume 1).program 2) ⟨fun _ ↦ 0x22, 0⟩ = some (0, after) ∧
    (events (handle (filledDrive largeTableBoot) 0x0500)
      ((filledCall largeTableBoot largeTableVolume 1).program 2) ⟨fun _ ↦ 0x22, 0⟩)[9]? =
        some (state, .diskReadSector 10 0x0500 0x3400) ∧
    linearAddress 0x0500 0x3400 = 0x8400 :=
  ⟨_, _, _, rfl, rfl, rfl, rfl⟩

end NeilOS.Loader
