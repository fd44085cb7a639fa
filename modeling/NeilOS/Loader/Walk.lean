import NeilOS.Loader.Load

/-!
# Where the loader reads

The reads of `fat_load_file` on any accepted volume, whatever the table says and whichever reads fail.
A read of a file sector belongs to a round of the outer loop, and its memory address is a function of
the number of file sectors read before it. Cluster numbers come from the directory entry and from the
table; the source compares them with the reserved values of FAT12 but not with the volume.
-/

namespace NeilOS.Loader

open Foundation Program

/-- The first sector of a cluster, as the source computes it. -/
def clusterSector (volume : Volume) (cluster : BitVec 16) : Word :=
  volume.firstDataSector + (cluster.setWidth 32 - 2) * volume.sectorsPerCluster.setWidth 32

/-- The memory address of a read to `linear`, split into a 16-bit segment and an offset. -/
def sectorAddress (linear : Word) : Word :=
  linearAddress ((linear >>> 4).setWidth 16) ((linear &&& 0xF).setWidth 16)

/-! ## The sectors of a cluster -/

/-- The loop variables after `sectors` sectors of a file of `size` bytes loaded to `start`. -/
structure Cursor (volume : Volume) (start size : Word) (sectors : ℕ) (linear remaining : Word) :
    Prop where
  remaining_eq : remaining.toNat = size.toNat - sectors * volume.bytesPerSector.toNat
  linear_eq : 0 < remaining.toNat →
    linear = start + .ofNat 32 (sectors * volume.bytesPerSector.toNat)

/-- The read of the next sector of a file, after as many as there were reads since `first`. -/
def FileRead (volume : Volume) (first : ℕ) (start size : Word) (state : Machine) (address : Word) :
    Prop :=
  ∃ sectors, state.reads = first + sectors ∧ sectors * volume.bytesPerSector.toNat < size.toNat ∧
    address = sectorAddress (start + .ofNat 32 (sectors * volume.bytesPerSector.toNat))

section Sectors

variable {drive : Drive} {ds : BitVec 16} {volume : Volume} {start size : Word} {first : ℕ}

theorem Cursor.initial (volume : Volume) (start size : Word) :
    Cursor volume start size 0 start size := by
  constructor
  · simp
  · simp

theorem Cursor.next {sectors : ℕ} {linear remaining : Word}
    (h : Cursor volume start size sectors linear remaining) (hmore : 0 < remaining.toNat) :
    Cursor volume start size (sectors + 1)
      (linear + if remaining < volume.bytesPerSector.setWidth 32 then remaining
        else volume.bytesPerSector.setWidth 32)
      (remaining - if remaining < volume.bytesPerSector.setWidth 32 then remaining
        else volume.bytesPerSector.setWidth 32) := by
  have hremaining := h.remaining_eq
  have hlinear := h.linear_eq hmore
  have hbytes : (volume.bytesPerSector.setWidth 32).toNat = volume.bytesPerSector.toNat := by
    have := volume.bytesPerSector.isLt
    rw [BitVec.toNat_setWidth]
    omega
  have hsum : (sectors + 1) * volume.bytesPerSector.toNat =
      sectors * volume.bytesPerSector.toNat + volume.bytesPerSector.toNat := Nat.succ_mul _ _
  have hword : BitVec.ofNat 32 volume.bytesPerSector.toNat = volume.bytesPerSector.setWidth 32 := by
    rw [BitVec.ofNat_toNat]
  constructor
  · rw [hsum]
    split_ifs with hlast
    · rw [BitVec.lt_def] at hlast
      rw [BitVec.sub_self]
      change 0 = _
      omega
    · rw [BitVec.lt_def] at hlast
      rw [BitVec.toNat_sub_of_le (BitVec.le_def.mpr (by omega))]
      omega
  · split_ifs with hlast
    · intro hleft
      rw [BitVec.sub_self] at hleft
      exact absurd hleft (by decide)
    · intro _
      rw [hlinear, hsum, BitVec.ofNat_add, BitVec.add_assoc, hword]

/-- The inner loop reads sectors of its cluster until the cluster or the file ends or a read fails. -/
theorem loadSectors_reads {lba : Word} {sectors : ℕ} {linear remaining : Word} {machine : Machine}
    (hreads : machine.reads = first + sectors)
    (hcursor : Cursor volume start size sectors linear remaining) :
    Meets (handle drive ds)
      (Allows fun state sector address ↦ FileRead volume first start size state address ∧
        ∃ index < volume.sectorsPerCluster.toNat, sector = lba + .ofNat 32 index)
      (loadSectors volume lba 256 0 linear remaining) machine fun out after ↦
        out = none ∧ (∃ number, drive.succeeds number = false) ∨
          ∃ sectors' linear' remaining', out = some (linear', remaining') ∧
            after.reads = first + sectors' ∧
            Cursor volume start size sectors' linear' remaining' ∧
            (0 < remaining'.toNat → sectors' = sectors + volume.sectorsPerCluster.toNat) := by
  apply meets_loadSectors (fun index linear remaining current ↦
    current.reads = first + (sectors + index) ∧
      Cursor volume start size (sectors + index) linear remaining)
  · intro index linear remaining current hindex hleft ⟨hcount, hcurrent⟩
    have hremaining := hcurrent.remaining_eq
    apply meets_read
    · refine ⟨⟨sectors + index, hcount, by omega, ?_⟩, index, hindex, rfl⟩
      rw [← hcurrent.linear_eq hleft]
      rfl
    · intro _
      rw [if_neg (by decide)]
      exact ⟨congrArg (· + 1) hcount, hcurrent.next hleft⟩
    · intro hfailure
      rw [if_pos (by decide)]
      exact .inl ⟨rfl, _, hfailure⟩
  · intro index linear remaining current _ hwhole ⟨hcount, hcurrent⟩
    refine .inr ⟨sectors + index, linear, remaining, rfl, hcount, hcurrent, fun hleft ↦ ?_⟩
    rw [hwhole hleft]
  · exact Nat.zero_le _
  · exact volume.sectorsPerCluster.isLt
  · exact ⟨hreads, hcursor⟩

end Sectors

/-! ## The sectors of the table -/

/-- The read of the next sector of the table, after as many as there were reads since `first`. -/
def TableRead (ds : BitVec 16) (volume : Volume) (first : ℕ) (state : Machine) (lba address : Word) :
    Prop :=
  ∃ sectors < volume.sectorsPerFat.toNat, state.reads = first + sectors ∧
    lba = volume.firstFatSector + .ofNat 32 sectors ∧
    address = linearAddress ds
      ((fatSeg + .ofNat 32 sectors * volume.bytesPerSector.setWidth 32).setWidth 16)

theorem fatReadTableFrom_reads {drive : Drive} {ds : BitVec 16} {volume : Volume} {machine : Machine}
    {first left sectors : ℕ} (hcount : sectors + left = volume.sectorsPerFat.toNat)
    (hreads : machine.reads = first + sectors) :
    Meets (handle drive ds) (Allows (TableRead ds volume first))
      (fatReadTableFrom ds volume left (.ofNat 32 sectors)) machine fun code after ↦
        code = 0 ∧ after.reads = first + volume.sectorsPerFat.toNat ∨
          code = -1 ∧ ∃ number, drive.succeeds number = false := by
  induction left generalizing sectors machine with
  | zero => exact .inl ⟨rfl, by omega⟩
  | succ left ih =>
    rw [fatReadTableFrom, meets_bind]
    apply meets_read
    · exact ⟨sectors, by omega, hreads, rfl, rfl⟩
    · intro _
      have hnext : BitVec.ofNat 32 sectors + 1 = BitVec.ofNat 32 (sectors + 1) :=
        (BitVec.ofNat_add sectors 1).symm
      rw [if_neg (by decide), hnext]
      exact ih (by omega) (by simp only; omega)
    · intro hfailure
      rw [if_pos (by decide)]
      exact .inr ⟨rfl, _, hfailure⟩

theorem fatReadTable_reads (drive : Drive) (ds : BitVec 16) (volume : Volume) (machine : Machine) :
    Meets (handle drive ds) (Allows (TableRead ds volume machine.reads)) (fatReadTable ds volume)
      machine fun code after ↦
        code = 0 ∧ after.reads = machine.reads + volume.sectorsPerFat.toNat ∨
          code = -1 ∧ ∃ number, drive.succeeds number = false :=
  fatReadTableFrom_reads (Nat.zero_add _) rfl

theorem fat12NextCluster_loads {drive : Drive} {ds : BitVec 16} {machine : Machine}
    {allowed : Machine → Word → Word → Prop} (fat : Word) (cluster : BitVec 16) :
    Meets (handle drive ds) (Allows allowed) (fat12NextCluster fat cluster) machine
      fun _ after ↦ after = machine := by
  unfold fat12NextCluster
  rw [meets_bind, meets_load_iff trivial, meets_bind, meets_load_iff trivial]
  split_ifs <;> rfl

/-! ## The clusters of a file -/

/-- The loop variables at the head of the outer loop of `fat_load_file`. -/
structure Turn where
  cluster : BitVec 16
  linear : Word
  remaining : Word
  machine : Machine

section Rounds

variable (drive : Drive) (ds : BitVec 16) (volume : Volume)

/-- A round that has read its cluster and looked up the next cluster number, with some of the file
still to be loaded. The number has not been checked yet. -/
inductive Round : Turn → Turn → Prop where
  | lookup {turn : Turn} {linear remaining : Word} {middle after : Machine} {cluster : BitVec 16} :
      exec (handle drive ds) (loadSectors volume (clusterSector volume turn.cluster) 256 0 turn.linear
        turn.remaining) turn.machine = some (some (linear, remaining), middle) →
      remaining ≠ 0 →
      exec (handle drive ds) (fat12NextCluster fatSeg turn.cluster) middle = some (cluster, after) →
      Round turn ⟨cluster, linear, remaining, after⟩

/-- A cluster number from the table that the source goes on with. -/
def Proceeds (cluster : BitVec 16) : Prop := 2 ≤ cluster ∧ cluster < 0xFF7

/-- The turns in which the loop reads sectors, from a given first turn. -/
inductive Reads (origin : Turn) : Turn → Prop where
  | first : origin.remaining ≠ 0 → Reads origin origin
  | next {turn after : Turn} : Reads origin turn → Round drive ds volume turn after →
      Proceeds after.cluster → Reads origin after

end Rounds

/-- The outer loop from its head on. -/
abbrev Turn.load (turn : Turn) (volume : Volume) (fuel : ℕ) : LoaderProgram ℤ :=
  loadClusters volume fuel turn.cluster turn.linear turn.remaining

theorem proceeds_iff (cluster : BitVec 16) :
    Proceeds cluster ↔ cluster ≠ 0xFF7 ∧ ¬ (cluster < 2 ∨ 0xFF8 ≤ cluster) := by
  unfold Proceeds
  bv_omega

theorem Allows.mono {allowed larger : Machine → Word → Word → Prop} {machine : Machine} {op : LoaderOp}
    (hlarger : ∀ state lba address, allowed state lba address → larger state lba address)
    (h : Allows allowed machine op) : Allows larger machine op := by
  cases op with
  | diskGetParams => trivial
  | diskReadSector lba segment offset => exact hlarger _ _ _ h
  | load pointer => trivial

section Clusters

variable {drive : Drive} {ds : BitVec 16} {volume : Volume} {start size : Word} {first : ℕ}

/-- A round loads at least one sector of at least one byte. -/
theorem Round.remaining_lt {turn after : Turn} (h : Round drive ds volume turn after)
    (hclusters : 0 < volume.sectorsPerCluster.toNat) (hbytes : 0 < volume.bytesPerSector.toNat)
    (hmore : turn.remaining ≠ 0) : after.remaining.toNat < turn.remaining.toNat := by
  obtain ⟨hexec, hnonzero, -⟩ := h
  have hsectors : Meets (handle drive ds) _
      (loadSectors volume (clusterSector volume turn.cluster) 256 0 turn.linear turn.remaining)
      turn.machine _ :=
    loadSectors_reads rfl (Cursor.initial volume turn.linear turn.remaining)
  rcases hsectors.of_exec hexec with ⟨hnone, -⟩ | ⟨sectors, linear, remaining, hsome, -, hcursor, hwhole⟩
  · cases hnone
  obtain ⟨rfl, rfl⟩ := Prod.mk.inj (Option.some.inj hsome)
  have hremaining := hcursor.remaining_eq
  have hcount := hwhole (by bv_omega)
  have hproduct : 1 * volume.bytesPerSector.toNat ≤ sectors * volume.bytesPerSector.toNat :=
    Nat.mul_le_mul_right _ (by simp at hcount; omega)
  have hpositive : 0 < turn.remaining.toNat := by bv_omega
  simp only
  omega

/-- Every read of the outer loop belongs to a turn that reads. Each round loads at least one byte, so
the loop ends. -/
theorem loadClusters_reads (hclusters : 0 < volume.sectorsPerCluster.toNat)
    (hbytes : 0 < volume.bytesPerSector.toNat) {origin turn : Turn} {fuel sectors : ℕ}
    (hturn : turn.remaining ≠ 0 → Reads drive ds volume origin turn)
    (hfuel : turn.remaining.toNat < fuel) (hreads : turn.machine.reads = first + sectors)
    (hcursor : Cursor volume start size sectors turn.linear turn.remaining) :
    Meets (handle drive ds)
      (Allows fun state sector address ↦ FileRead volume first start size state address ∧
        ∃ reading, Reads drive ds volume origin reading ∧
          ∃ index < volume.sectorsPerCluster.toNat,
            sector = clusterSector volume reading.cluster + .ofNat 32 index)
      (turn.load volume fuel) turn.machine fun code _ ↦ code = 0 ∨ code = -1 := by
  induction fuel generalizing turn sectors with
  | zero => omega
  | succ fuel ih =>
    unfold Turn.load loadClusters
    split_ifs with hdone
    · exact .inl rfl
    have hread := hturn hdone
    have hsectors : Meets (handle drive ds) _
        (loadSectors volume (clusterSector volume turn.cluster) 256 0 turn.linear turn.remaining)
        turn.machine _ :=
      loadSectors_reads hreads hcursor
    rw [meets_bind]
    refine (hsectors.with_exec.allow ?_).mono ?_
    · intro state op
      apply Allows.mono
      rintro state sector address ⟨hfile, hindex⟩
      exact ⟨hfile, turn, hread, hindex⟩
    rintro out middle ⟨⟨rfl, -⟩ | ⟨sectors', linear, remaining, rfl, hmiddle, hnext, -⟩, hexec⟩
    · exact .inr rfl
    dsimp only
    split_ifs with hzero
    · exact .inl rfl
    rw [meets_bind]
    refine (fat12NextCluster_loads fatSeg turn.cluster).with_exec.mono ?_
    rintro cluster after ⟨rfl, hlookup⟩
    have hround : Round drive ds volume turn ⟨cluster, linear, remaining, after⟩ :=
      .lookup hexec hzero hlookup
    have hless : remaining.toNat < turn.remaining.toNat := hround.remaining_lt hclusters hbytes hdone
    split_ifs with hbad houtside
    · exact .inr rfl
    · exact .inr rfl
    · have hproceeds := (proceeds_iff cluster).mpr ⟨hbad, houtside⟩
      exact ih (fun _ ↦ hread.next hround hproceeds) (by simp only; omega) hmiddle hnext

theorem Reads.remaining_ne {origin turn : Turn} (h : Reads drive ds volume origin turn) :
    turn.remaining ≠ 0 := by
  cases h with
  | first hmore => exact hmore
  | next _ hround _ =>
    obtain ⟨-, hnonzero, -⟩ := hround
    exact hnonzero

/-- After a round the outer loop goes on with its result, or refuses the cluster number. -/
theorem Round.exec_load {turn after : Turn} (h : Round drive ds volume turn after)
    (hmore : turn.remaining ≠ 0) (fuel : ℕ) :
    (Proceeds after.cluster → exec (handle drive ds) (turn.load volume (fuel + 1)) turn.machine =
      exec (handle drive ds) (after.load volume fuel) after.machine) ∧
    (¬ Proceeds after.cluster →
      exec (handle drive ds) (turn.load volume (fuel + 1)) turn.machine = some (-1, after.machine)) := by
  obtain ⟨hsectors, hnonzero, hlookup⟩ := h
  unfold clusterSector at hsectors
  rw [proceeds_iff, Turn.load, loadClusters, if_neg hmore, exec_bind, hsectors, Option.bind_some]
  dsimp only
  rw [if_neg hnonzero, exec_bind, hlookup, Option.bind_some]
  constructor
  · rintro ⟨hbad, hinside⟩
    rw [if_neg hbad, if_neg hinside]
  · intro hrefused
    split_ifs with hbad houtside
    · rfl
    · rfl
    · exact absurd ⟨hbad, houtside⟩ hrefused

theorem Round.mem_events {turn after : Turn} (h : Round drive ds volume turn after)
    (hmore : turn.remaining ≠ 0) (hproceeds : Proceeds after.cluster) {fuel : ℕ}
    {event : Machine × LoaderOp}
    (hevent : event ∈ events (handle drive ds) (after.load volume fuel) after.machine) :
    event ∈ events (handle drive ds) (turn.load volume (fuel + 1)) turn.machine := by
  obtain ⟨hsectors, hnonzero, hlookup⟩ := h
  obtain ⟨hbad, hinside⟩ := (proceeds_iff _).mp hproceeds
  rw [Turn.load, loadClusters, if_neg hmore]
  refine mem_events_bind_right hsectors ?_
  dsimp only
  rw [if_neg hnonzero]
  refine mem_events_bind_right hlookup ?_
  rw [if_neg hbad, if_neg hinside]
  exact hevent

/-- The run of the outer loop from a later turn is the rest of the run from the first one. -/
theorem Reads.rest {origin turn : Turn} (h : Reads drive ds volume origin turn)
    (hclusters : 0 < volume.sectorsPerCluster.toNat) (hbytes : 0 < volume.bytesPerSector.toNat)
    {fuel : ℕ} (hfuel : origin.remaining.toNat < fuel) :
    ∃ left, turn.remaining.toNat < left ∧
      exec (handle drive ds) (turn.load volume left) turn.machine =
        exec (handle drive ds) (origin.load volume fuel) origin.machine ∧
      ∀ event ∈ events (handle drive ds) (turn.load volume left) turn.machine,
        event ∈ events (handle drive ds) (origin.load volume fuel) origin.machine := by
  induction h with
  | first _ => exact ⟨fuel, hfuel, rfl, fun _ hevent ↦ hevent⟩
  | @next turn after hreads hround hproceeds ih =>
    obtain ⟨left, hleft, hexec, hevents⟩ := ih
    cases left with
    | zero => omega
    | succ left =>
      have hmore := hreads.remaining_ne
      have hless := hround.remaining_lt hclusters hbytes hmore
      refine ⟨left, by omega, ?_, fun event hevent ↦ ?_⟩
      · rw [← hexec, (hround.exec_load hmore left).1 hproceeds]
      · exact hevents event (hround.mem_events hmore hproceeds hevent)

/-- A turn that reads starts with the first sector of its cluster. -/
theorem Reads.first_sector {origin turn : Turn} (h : Reads drive ds volume origin turn)
    (hclusters : 0 < volume.sectorsPerCluster.toNat) (hbytes : 0 < volume.bytesPerSector.toNat)
    {fuel : ℕ} (hfuel : origin.remaining.toNat < fuel) :
    ∃ segment offset, (turn.machine, .diskReadSector (clusterSector volume turn.cluster) segment offset) ∈
      events (handle drive ds) (origin.load volume fuel) origin.machine := by
  obtain ⟨left, hleft, -, hevents⟩ := h.rest hclusters hbytes hfuel
  have hmore := h.remaining_ne
  cases left with
  | zero => omega
  | succ left =>
    refine ⟨(turn.linear >>> 4).setWidth 16, (turn.linear &&& 0xF).setWidth 16, hevents _ ?_⟩
    rw [Turn.load, loadClusters, if_neg hmore]
    apply mem_events_bind_left
    have hinside : (0 : Byte) < volume.sectorsPerCluster := hclusters
    have hleft : 0 < turn.remaining := by bv_omega
    have hsector : clusterSector volume turn.cluster = volume.firstDataSector +
        (turn.cluster.setWidth 32 - 2) * volume.sectorsPerCluster.setWidth 32 +
          (0 : Byte).setWidth 32 := by
      simp [clusterSector]
    rw [loadSectors, if_pos ⟨hinside, hleft⟩, hsector]
    exact mem_events_bind_left List.mem_cons_self

end Clusters

/-! ## A call of `fat_load_file` -/

/-- A call of `fat_load_file`, with the disk and the memory it finds. -/
structure Call where
  drive : Drive
  ds : BitVec 16
  volume : Volume
  firstCluster : BitVec 16
  fileSize : Word
  destination : Word
  machine : Machine

namespace Call

variable (call : Call)

def program (fuel : ℕ) : LoaderProgram ℤ :=
  fatLoadFile fuel call.ds call.volume call.firstCluster call.fileSize call.destination

/-- The address the first sector of the file is loaded to. -/
def start : Word := call.ds.setWidth 32 <<< 4 + (call.destination.setWidth 16).setWidth 32

/-- The first turn of the outer loop, in the state that the table was read in. -/
def origin (machine : Machine) : Turn := ⟨call.firstCluster, call.start, call.fileSize, machine⟩

/-- The turns in which the call reads sectors of the file. -/
def Reads (turn : Turn) : Prop :=
  2 ≤ call.firstCluster ∧ ∃ after,
    exec (handle call.drive call.ds) (fatReadTable call.ds call.volume) call.machine = some (0, after) ∧
    Loader.Reads call.drive call.ds call.volume (call.origin after) turn

/-- Every read of the call is a read of the table or a read of a turn, in this order. -/
theorem reads_spec (hareas : Areas call.volume) {fuel : ℕ} (hfuel : call.fileSize.toNat < fuel) :
    Meets (handle call.drive call.ds)
      (Allows fun state lba address ↦
        TableRead call.ds call.volume call.machine.reads state lba address ∨
          FileRead call.volume (call.machine.reads + call.volume.sectorsPerFat.toNat) call.start
            call.fileSize state address ∧
          ∃ turn, call.Reads turn ∧ ∃ index < call.volume.sectorsPerCluster.toNat,
            lba = clusterSector call.volume turn.cluster + .ofNat 32 index)
      (call.program fuel) call.machine fun code _ ↦ code = 0 ∨ code = -1 := by
  unfold program fatLoadFile
  dsimp only
  split_ifs with hreserved
  · exact .inr rfl
  have hfirst : 2 ≤ call.firstCluster := BitVec.not_lt.mp hreserved
  rw [meets_bind]
  refine ((fatReadTable_reads call.drive call.ds call.volume call.machine).with_exec.allow ?_).mono ?_
  · exact fun state op ↦ Allows.mono fun _ _ _ htable ↦ .inl htable
  rintro code after ⟨⟨rfl, hreads⟩ | ⟨rfl, -⟩, hexec⟩
  · rw [if_neg (by decide)]
    have hcursor : Cursor call.volume call.start call.fileSize 0 (call.origin after).linear
        (call.origin after).remaining := Cursor.initial ..
    have hstart : (call.origin after).machine.reads =
        call.machine.reads + call.volume.sectorsPerFat.toNat + 0 := hreads
    have hloop := loadClusters_reads hareas.sectorsPerCluster_pos hareas.bytesPerSector_pos
      (@Loader.Reads.first call.drive call.ds call.volume (call.origin after)) hfuel hstart hcursor
    refine Meets.allow hloop fun state op ↦ Allows.mono fun _ _ _ ⟨hfile, turn, hturn, hindex⟩ ↦ ?_
    exact .inr ⟨hfile, turn, ⟨hfirst, after, hexec, hturn⟩, hindex⟩
  · rw [if_pos (by decide)]
    exact .inr rfl

theorem Reads.lookup {turn next : Turn} (h : call.Reads turn)
    (hround : Round call.drive call.ds call.volume turn next) (hproceeds : Proceeds next.cluster) :
    call.Reads next := by
  obtain ⟨hfirst, after, hexec, hreads⟩ := h
  exact ⟨hfirst, after, hexec, hreads.next hround hproceeds⟩

/-- The run of the call from a turn on is the rest of its run. -/
theorem Reads.program {turn : Turn} (h : call.Reads turn) (hareas : Areas call.volume) {fuel : ℕ}
    (hfuel : call.fileSize.toNat < fuel) :
    ∃ left, turn.remaining.toNat < left ∧
      exec (handle call.drive call.ds) (turn.load call.volume left) turn.machine =
        exec (handle call.drive call.ds) (call.program fuel) call.machine ∧
      ∃ segment offset,
        (turn.machine, .diskReadSector (clusterSector call.volume turn.cluster) segment offset) ∈
          events (handle call.drive call.ds) (call.program fuel) call.machine := by
  obtain ⟨hfirst, after, hexec, hreads⟩ := h
  obtain ⟨left, hleft, hrest, -⟩ :=
    hreads.rest hareas.sectorsPerCluster_pos hareas.bytesPerSector_pos hfuel
  obtain ⟨segment, offset, hevent⟩ :=
    hreads.first_sector hareas.sectorsPerCluster_pos hareas.bytesPerSector_pos hfuel
  unfold Call.program fatLoadFile
  dsimp only
  rw [if_neg (BitVec.not_lt.mpr hfirst)]
  refine ⟨left, hleft, ?_, segment, offset, mem_events_bind_right hexec ?_⟩
  · rw [exec_bind, hexec, Option.bind_some]
    dsimp only
    rw [if_neg (by decide)]
    exact hrest
  · rw [if_neg (by decide)]
    exact hevent

/-- A turn whose lookup gives a number that the source does not go on with ends the call. -/
theorem Reads.refused {turn next : Turn} (h : call.Reads turn)
    (hround : Round call.drive call.ds call.volume turn next) (hrefused : ¬ Proceeds next.cluster)
    (hareas : Areas call.volume) {fuel : ℕ} (hfuel : call.fileSize.toNat < fuel) :
    exec (handle call.drive call.ds) (call.program fuel) call.machine = some (-1, next.machine) := by
  obtain ⟨left, hleft, hrest, -⟩ := h.program call hareas hfuel
  obtain ⟨-, after, -, hreads⟩ := h
  cases left with
  | zero => omega
  | succ left => rw [← hrest, (hround.exec_load hreads.remaining_ne left).2 hrefused]

end Call

/-- Disk addresses of clusters do not wrap, whatever the cluster number. -/
theorem Areas.toNat_clusterSector {volume : Volume} (h : Areas volume) {cluster : BitVec 16} {index : ℕ}
    (hcluster : 2 ≤ cluster.toNat) (hindex : index < volume.sectorsPerCluster.toNat) :
    (clusterSector volume cluster + .ofNat 32 index).toNat = volume.firstDataSector.toNat +
      (cluster.toNat - 2) * volume.sectorsPerCluster.toNat + index := by
  have hwidth := volume.sectorsPerCluster.isLt
  have hfirst := h.firstDataSector_lt
  have hproduct : (cluster.toNat - 2) * volume.sectorsPerCluster.toNat ≤ 2 ^ 16 * 2 ^ 8 :=
    Nat.mul_le_mul (by omega) hwidth.le
  have hnumber : (cluster.setWidth 32 - 2).toNat = cluster.toNat - 2 := by bv_omega
  have hclusters : (volume.sectorsPerCluster.setWidth 32).toNat = volume.sectorsPerCluster.toNat := by
    rw [BitVec.toNat_setWidth]
    omega
  rw [clusterSector, BitVec.toNat_add, BitVec.toNat_add, BitVec.toNat_mul, hnumber, hclusters,
    Word.toNat_ofNat_of_lt (by omega), Nat.mod_eq_of_lt (by omega :
      (cluster.toNat - 2) * volume.sectorsPerCluster.toNat < 2 ^ 32)]
  omega

end NeilOS.Loader
