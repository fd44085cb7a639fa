import NeilOS.Loader.Boot

/-!
# Finding a file

`fat_find_file` reads the root directory sector by sector into one buffer and searches each sector. On
the disk the directory is one list of entries; the search returns the first entry with the right name
among those before the end marker. A failing read cuts the list short.
-/

namespace NeilOS.Loader

open Foundation Program

/-! ## The directory as a list of entries -/

/-- The bytes of a directory entry. -/
abbrev DirEntry := ℕ → Byte

namespace DirEntry

/-- The entry is a file with the given name and extension: it is not deleted, not part of a long file
name, and neither a directory nor a volume label. -/
def Names (entry : DirEntry) (name : ℕ → Byte) : Prop :=
  entry 0 ≠ 0xE5 ∧ entry 11 ≠ 0x0F ∧ entry 11 &&& 0x10 = 0 ∧ entry 11 &&& 0x08 = 0 ∧
    ∀ index < 11, entry index = name index

instance (entry : DirEntry) (name : ℕ → Byte) : Decidable (entry.Names name) :=
  inferInstanceAs (Decidable (_ ∧ _))

def found (entry : DirEntry) : Found where
  firstCluster := .ofNat 16 (littleEndian entry 26 2)
  fileSize := .ofNat 32 (littleEndian entry 28 4)

end DirEntry

/-- The first entry with a name among the entries before the end marker. -/
def lookup (name : ℕ → Byte) (entries : List DirEntry) : Option DirEntry :=
  (entries.takeWhile fun entry ↦ entry 0 ≠ 0).find? fun entry ↦ entry.Names name

/-- What a search returns: the code and the variables of the caller. -/
def outcome (before : Found) : Option DirEntry → ℤ × Found
  | none => (-1, before)
  | some entry => (0, entry.found)

/-- The entries of a sector of 512 bytes, from number `first` on. -/
def sectorEntries (sector : ℕ → Byte) (first count : ℕ) : List DirEntry :=
  (List.range' first count).map fun number offset ↦ sector (32 * number + offset)

/-- The entries of `count` sectors of the root directory, from number `first` on. -/
def directory (drive : Drive) (volume : Volume) (first count : ℕ) : List DirEntry :=
  (List.range' first count).flatMap fun number ↦
    sectorEntries (drive.sector (volume.firstRootDirSector + .ofNat 32 number)) 0 16

/-- The entry at the front decides the search or is passed over. -/
theorem lookup_cons (name : ℕ → Byte) (entry : DirEntry) (rest : List DirEntry) :
    lookup name (entry :: rest) =
      if entry 0 = 0 then none else if entry.Names name then some entry else lookup name rest := by
  unfold lookup
  split_ifs with hend hname
  · simp [hend]
  · rw [List.takeWhile_cons_of_pos (by simpa using hend), List.find?_cons_of_pos (by simpa using hname)]
  · rw [List.takeWhile_cons_of_pos (by simpa using hend), List.find?_cons_of_neg (by simpa using hname)]

theorem outcome_eq_zero_iff (before : Found) {name : ℕ → Byte} {entries : List DirEntry} :
    (outcome before (lookup name entries)).1 = 0 ↔
      ∃ entry ∈ entries.takeWhile fun entry ↦ entry 0 ≠ 0, entry.Names name := by
  cases hlookup : lookup name entries with
  | none =>
    refine iff_of_false (by decide : (-1 : ℤ) ≠ 0) ?_
    rintro ⟨entry, hentry, hnames⟩
    exact List.find?_eq_none.mp hlookup entry hentry (by simpa using hnames)
  | some entry =>
    refine iff_of_true rfl ⟨entry, List.mem_of_find?_eq_some hlookup, ?_⟩
    simpa using List.find?_some hlookup

/-! ## Comparing names -/

section Rules

variable {drive : Drive} {ds : BitVec 16} {machine : Machine}

theorem memcmpFrom_spec {ptr1 ptr2 : Word} {left first : ℕ} :
    Meets (handle drive ds) Unrestricted (memcmpFrom ptr1 ptr2 left (.ofNat 32 first)) machine
      fun code after ↦ after = machine ∧ (code = 0 ↔ ∀ index < left,
        machine.memory (linearAddress ds 0 + (ptr1 + .ofNat 32 (first + index))) =
          machine.memory (linearAddress ds 0 + (ptr2 + .ofNat 32 (first + index)))) := by
  induction left generalizing first with
  | zero => simp [memcmpFrom]
  | succ left ih =>
    rw [memcmpFrom, meets_bind, meets_load, meets_bind, meets_load]
    by_cases hdiffer : machine.memory (linearAddress ds 0 + (ptr1 + .ofNat 32 first)) ≠
        machine.memory (linearAddress ds 0 + (ptr2 + .ofNat 32 first))
    · rw [if_pos hdiffer, meets_pure]
      refine ⟨rfl, iff_of_false (by split_ifs <;> decide) fun hall ↦ hdiffer ?_⟩
      exact hall 0 (Nat.zero_lt_succ _)
    · have hnext : BitVec.ofNat 32 first + 1 = BitVec.ofNat 32 (first + 1) :=
        (BitVec.ofNat_add first 1).symm
      rw [if_neg hdiffer, hnext]
      refine ih.mono ?_
      rintro code after ⟨rfl, hcode⟩
      refine ⟨rfl, hcode.trans ?_⟩
      rw [Nat.forall_lt_succ_left]
      simp only [Nat.add_right_comm first 1, Nat.add_assoc, Nat.add_zero]
      exact (and_iff_right (not_not.mp hdiffer)).symm

/-- The bytes of the name are at `DS:name83`. -/
def NameAt (ds : BitVec 16) (name83 : Word) (name : ℕ → Byte) (machine : Machine) : Prop :=
  ∀ index < 11, machine.memory (linearAddress ds 0 + (name83 + .ofNat 32 index)) = name index

variable {sector name : ℕ → Byte} {name83 : Word}

/-- Comparing a part of the entry at `start` with the same part of the name. -/
theorem memcmp_spec (hholds : Holds ds rootDirSeg sector machine) (hname : NameAt ds name83 name machine)
    {start first count : ℕ} {ptr1 ptr2 n : Word} (hptr1 : ptr1 = rootDirSeg + .ofNat 32 (start + first))
    (hptr2 : ptr2 = name83 + .ofNat 32 first) (hn : n.toNat = count) (hcount : first + count ≤ 11)
    (hstart : start + 11 ≤ 512) :
    Meets (handle drive ds) Unrestricted (memcmp ptr1 ptr2 n) machine fun code after ↦
      after = machine ∧
        (code = 0 ↔ ∀ index < count, sector (start + (first + index)) = name (first + index)) := by
  rw [memcmp, hn, hptr1, hptr2]
  refine (@memcmpFrom_spec _ _ _ _ _ _ 0).mono ?_
  rintro code after ⟨rfl, hcode⟩
  refine ⟨rfl, hcode.trans (forall₂_congr fun index hindex ↦ ?_)⟩
  rw [Nat.zero_add, pointer_add, pointer_add, hholds _ (by omega), hname _ (by omega), Nat.add_assoc]

/-- The fields of an entry are fields of its sector. -/
theorem littleEndian_entry (sector : ℕ → Byte) (start offset count : ℕ) :
    littleEndian (fun index ↦ sector (start + index)) offset count =
      littleEndian sector (start + offset) count := by
  induction count generalizing offset with
  | zero => rfl
  | succ count ih => rw [littleEndian, littleEndian, ih, Nat.add_assoc]

theorem names_iff {entry : DirEntry} (hlive : entry 0 ≠ 0xE5) (hshort : entry 11 ≠ 0x0F)
    (hfile : ¬ (entry 11 &&& 0x10 ≠ 0 ∨ entry 11 &&& 0x08 ≠ 0)) :
    entry.Names name ↔ (∀ index < 8, entry index = name index) ∧
      ∀ index < 3, entry (8 + index) = name (8 + index) := by
  rw [not_or, not_not, not_not] at hfile
  constructor
  · rintro ⟨-, -, -, -, hall⟩
    exact ⟨fun index hindex ↦ hall index (by omega), fun index hindex ↦ hall (8 + index) (by omega)⟩
  · rintro ⟨hname, hext⟩
    refine ⟨hlive, hshort, hfile.1, hfile.2, fun index hindex ↦ ?_⟩
    rcases Nat.lt_or_ge index 8 with hlow | hhigh
    · exact hname index hlow
    · have hsame := hext (index - 8) (by omega)
      rwa [Nat.add_sub_cancel' hhigh] at hsame

/-- The result of searching some entries, seen from any continuation of the directory. -/
def Searched (before : Found) (name : ℕ → Byte) (entries : List DirEntry) : Option (ℤ × Found) → Prop
  | none => ∀ rest, lookup name (entries ++ rest) = lookup name rest
  | some answer => ∀ rest, answer = outcome before (lookup name (entries ++ rest))

theorem Searched.skip {before : Found} {entry : DirEntry} {entries : List DirEntry}
    {out : Option (ℤ × Found)} (h : Searched before name entries out) (hmore : entry 0 ≠ 0)
    (hother : ¬ entry.Names name) : Searched before name (entry :: entries) out := by
  cases out with
  | none =>
    intro rest
    rw [List.cons_append, lookup_cons, if_neg hmore, if_neg hother, h rest]
  | some answer =>
    intro rest
    rw [List.cons_append, lookup_cons, if_neg hmore, if_neg hother, ← h rest]

/-- The two comparisons of an entry that may be a file: it is returned, or the search goes on. -/
theorem meets_compare (hholds : Holds ds rootDirSeg sector machine)
    (hname : NameAt ds name83 name machine) {start : ℕ} {entry : DirEntry}
    (hentry : (fun offset ↦ sector (start + offset)) = entry) (hstart : start + 32 ≤ 512)
    (hnames : entry.Names name ↔ (∀ index < 8, entry index = name index) ∧
      ∀ index < 3, entry (8 + index) = name (8 + index))
    {rest : LoaderProgram (Option (ℤ × Found))} {post : Option (ℤ × Found) → Machine → Prop}
    (hfound : entry.Names name → post (some (0, entry.found)) machine)
    (hother : ¬ entry.Names name → Meets (handle drive ds) Unrestricted rest machine post) :
    Meets (handle drive ds) Unrestricted
      (do
        if (← memcmp (rootDirSeg + .ofNat 32 start) name83 8) = 0 then
          if (← memcmp (rootDirSeg + .ofNat 32 start + 8) (name83 + 8) 3) = 0 then
            let firstCluster ← readLe16 (rootDirSeg + .ofNat 32 start + 26)
            let fileSize ← readLe32 (rootDirSeg + .ofNat 32 start + 28)
            return some (0, ⟨firstCluster, fileSize⟩)
          else rest
        else rest) machine post := by
  have hbyte (offset : ℕ) : sector (start + offset) = entry offset := by rw [← hentry]
  rw [meets_bind]
  refine (memcmp_spec hholds hname (rfl : _ = rootDirSeg + .ofNat 32 (start + 0))
    (BitVec.add_zero name83).symm rfl (by decide) (by omega)).mono ?_
  rintro code after ⟨rfl, hcode⟩
  simp only [Nat.zero_add, hbyte] at hcode
  by_cases hsame : code = 0
  · rw [if_pos hsame, meets_bind]
    refine (memcmp_spec hholds hname (pointer_add rootDirSeg start 8) rfl rfl (by decide)
      (by omega)).mono ?_
    rintro extCode after ⟨rfl, hext⟩
    simp only [hbyte] at hext
    by_cases hsameExt : extCode = 0
    · have hcluster : rootDirSeg + BitVec.ofNat 32 start + 26 = _ := pointer_add rootDirSeg start 26
      have hsize : rootDirSeg + BitVec.ofNat 32 start + 28 = _ := pointer_add rootDirSeg start 28
      rw [if_pos hsameExt, meets_bind, hcluster, hsize]
      refine meets_field16 hholds _ (by omega) fun firstCluster hfirstCluster ↦ ?_
      rw [meets_bind]
      refine meets_field32 hholds _ (by omega) fun fileSize hfileSize ↦ ?_
      have hfields : entry.found = ⟨firstCluster, fileSize⟩ := by
        rw [DirEntry.found, ← hentry, littleEndian_entry, littleEndian_entry, ← hfirstCluster,
          ← hfileSize]
        simp
      have hreturned := hfound (hnames.mpr ⟨hcode.mp hsame, hext.mp hsameExt⟩)
      rwa [hfields] at hreturned
    · rw [if_neg hsameExt]
      exact hother fun hmatch ↦ hsameExt (hext.mpr (hnames.mp hmatch).2)
  · rw [if_neg hsame]
    exact hother fun hmatch ↦ hsame (hcode.mpr (hnames.mp hmatch).1)

/-- The inner loop searches the entries of the sector in the buffer. -/
theorem findInSector_spec (hholds : Holds ds rootDirSeg sector machine)
    (hname : NameAt ds name83 name machine) (before : Found) {left number : ℕ}
    (hcount : number + left = 16) :
    Meets (handle drive ds) Unrestricted
      (findInSector name83 before left (rootDirSeg + .ofNat 32 (32 * number))) machine
      fun out after ↦ after = machine ∧
        Searched before name (sectorEntries sector number left) out := by
  induction left generalizing number with
  | zero => exact ⟨rfl, fun _ ↦ rfl⟩
  | succ left ih =>
    obtain ⟨entry, hentry⟩ : ∃ entry : DirEntry, (fun offset ↦ sector (32 * number + offset)) = entry :=
      ⟨_, rfl⟩
    have hbyte (offset : ℕ) : sector (32 * number + offset) = entry offset := by rw [← hentry]
    have hentries : sectorEntries sector number (left + 1) =
        entry :: sectorEntries sector (number + 1) left := by
      rw [← hentry, sectorEntries, List.range'_succ]
      rfl
    have hnext : rootDirSeg + BitVec.ofNat 32 (32 * number) + dirEntrySize =
        rootDirSeg + .ofNat 32 (32 * (number + 1)) := pointer_add rootDirSeg (32 * number) 32
    have hfirst : machine.memory
        (linearAddress ds 0 + (rootDirSeg + .ofNat 32 (32 * number))) = entry 0 := by
      rw [hholds _ (by omega), ← hbyte]
      rfl
    -- An entry that is passed over leaves the rest of the sector.
    have hskip (hmore : entry 0 ≠ 0) (hother : ¬ entry.Names name) :
        Meets (handle drive ds) Unrestricted (findInSector name83 before left
          (rootDirSeg + .ofNat 32 (32 * number) + dirEntrySize)) machine fun out after ↦
            after = machine ∧ Searched before name (entry :: sectorEntries sector (number + 1) left) out := by
      rw [hnext]
      refine (ih (by omega)).mono ?_
      rintro out after ⟨hsame, hout⟩
      exact ⟨hsame, hout.skip hmore hother⟩
    rw [hentries, findInSector, meets_bind, meets_load, hfirst]
    split_ifs with hend hdeleted
    · refine ⟨rfl, fun rest ↦ ?_⟩
      rw [List.cons_append, lookup_cons, if_pos hend]
      rfl
    · exact hskip hend fun hnames ↦ hnames.1 hdeleted
    have hattributes : machine.memory
        (linearAddress ds 0 + (rootDirSeg + .ofNat 32 (32 * number) + 11)) = entry 11 := by
      rw [← hbyte, ← hholds _ (by omega)]
      exact congrArg _ (congrArg _ (pointer_add rootDirSeg (32 * number) 11))
    rw [meets_bind, meets_load, hattributes]
    split_ifs with hlong hkind
    · exact hskip hend fun hnames ↦ hnames.2.1 hlong
    · refine hskip hend fun hnames ↦ ?_
      obtain ⟨-, -, hdirectory, hlabel, -⟩ := hnames
      exact hkind.elim (fun hbit ↦ hbit hdirectory) fun hbit ↦ hbit hlabel
    refine meets_compare hholds hname hentry (by omega) (names_iff hdeleted hlong hkind)
      (fun hfound ↦ ⟨rfl, fun rest ↦ ?_⟩) (hskip hend)
    rw [List.cons_append, lookup_cons, if_neg hend, if_pos hfound]
    rfl

/-! ## Searching the directory -/

/-- The name does not lie in the buffer of the directory. -/
def OutsideBuffer (name83 : Word) : Prop :=
  ∀ index < 11, 512 ≤ (name83 + .ofNat 32 index - rootDirSeg).toNat

theorem NameAt.storeSector (h : NameAt ds name83 name machine) (houtside : OutsideBuffer name83)
    (sector : ℕ → Byte) (reads : ℕ) :
    NameAt ds name83 name
      ⟨storeSector machine.memory (linearAddress ds (rootDirSeg.setWidth 16)) sector, reads⟩ := by
  intro index hindex
  have hdistance : linearAddress ds 0 + (name83 + BitVec.ofNat 32 index) -
      (linearAddress ds 0 + rootDirSeg) = name83 + .ofNat 32 index - rootDirSeg := by
    generalize name83 + BitVec.ofNat 32 index = pointer
    bv_omega
  simp only [Loader.storeSector, linearAddress_pointer ds (by decide : rootDirSeg.toNat < 2 ^ 16), hdistance]
  rw [if_neg (Nat.not_lt.mpr (houtside index hindex))]
  exact h index hindex

/-- The next reads succeed for the first `count` sectors of the root directory, and then the
directory ends or a read fails. -/
structure Readable (drive : Drive) (volume : Volume) (start count : ℕ) : Prop where
  le : count ≤ volume.rootDirSectors.toNat
  succeed : ∀ sector < count, drive.succeeds (start + sector) = true
  stops : count = volume.rootDirSectors.toNat ∨ drive.succeeds (start + count) = false

theorem directory_succ (drive : Drive) (volume : Volume) (first count : ℕ) :
    directory drive volume first (count + 1) =
      sectorEntries (drive.sector (volume.firstRootDirSector + .ofNat 32 first)) 0 16 ++
        directory drive volume (first + 1) count := by
  rw [directory, List.range'_succ, List.flatMap_cons]
  rfl

theorem findInSectors_spec {volume : Volume} {start count left number : ℕ}
    (hbytes : volume.bytesPerSector = 512) (hname : NameAt ds name83 name machine)
    (houtside : OutsideBuffer name83) (hreadable : Readable drive volume start count) (before : Found)
    (hcount : number + left = volume.rootDirSectors.toNat) (hnumber : number ≤ count)
    (hreads : machine.reads = start + number) :
    Meets (handle drive ds) Unrestricted
      (findInSectors ds volume name83 before left (.ofNat 32 number)) machine fun answer _ ↦
        answer = outcome before (lookup name (directory drive volume number (count - number))) := by
  have hentries : (volume.bytesPerSector / dirEntrySize.setWidth 16).toNat = 16 := by
    rw [hbytes]
    rfl
  have hle := hreadable.le
  induction left generalizing number machine with
  | zero =>
    have hdone : count - number = 0 := by omega
    rw [hdone]
    rfl
  | succ left ih =>
    rw [findInSectors, meets_bind]
    apply meets_diskReadSector
    · intro hsuccess
      -- A read that succeeds is not the one that stops the search.
      have hmore : number < count := by
        refine Nat.lt_of_le_of_ne hnumber ?_
        rintro rfl
        rcases hreadable.stops with hend | hfailed
        · omega
        · rw [← hreads, hsuccess] at hfailed
          exact absurd hfailed (by decide)
      have hrest : count - number = count - (number + 1) + 1 := by omega
      rw [if_neg (by decide)]
      dsimp only
      rw [hentries, hrest, directory_succ, meets_bind]
      have hkept := hname.storeSector houtside
        (drive.sector (volume.firstRootDirSector + .ofNat 32 number)) (machine.reads + 1)
      have hholds := holds_storeSector ds (by decide : rootDirSeg.toNat < 2 ^ 16)
        (drive.sector (volume.firstRootDirSector + .ofNat 32 number)) machine.memory (machine.reads + 1)
      refine (findInSector_spec hholds hkept before (Nat.zero_add 16)).mono ?_
      rintro out after ⟨rfl, hout⟩
      cases out with
      | some answer => exact hout _
      | none =>
        have hnext : BitVec.ofNat 32 number + 1 = BitVec.ofNat 32 (number + 1) :=
          (BitVec.ofNat_add number 1).symm
        rw [hout, hnext]
        exact ih hkept (by omega) (by omega) (by simp only; omega)
    · intro hfailed
      have hdone : count - number = 0 := by
        by_contra hmore
        have hsuccess := hreadable.succeed number (by omega)
        rw [← hreads, hfailed] at hsuccess
        exact absurd hsuccess (by decide)
      rw [if_pos (by decide), hdone]
      rfl

/-- `fat_find_file` searches the sectors it can read. If no read fails this is the whole root
directory, and if the read of a sector fails it is what lies before that sector. It returns the first
entry with the name that comes before the end marker, and otherwise leaves the variables of its caller
alone. -/
theorem find_file_spec {volume : Volume} (hbytes : volume.bytesPerSector = 512)
    (hname : NameAt ds name83 name machine) (houtside : OutsideBuffer name83) {count : ℕ}
    (hreadable : Readable drive volume machine.reads count) (before : Found) :
    ∃ code found after,
      exec (handle drive ds) (fatFindFile ds volume name83 before) machine = some ((code, found), after) ∧
      (code = 0 ↔ ∃ entry ∈ (directory drive volume 0 count).takeWhile fun entry ↦ entry 0 ≠ 0,
        entry.Names name) ∧
      (code, found) = outcome before (lookup name (directory drive volume 0 count)) := by
  obtain ⟨⟨code, found⟩, after, hexec, hanswer⟩ :=
    (findInSectors_spec hbytes hname houtside hreadable before (Nat.zero_add _) (Nat.zero_le count)
      (Nat.add_zero _).symm).exec
  refine ⟨code, found, after, hexec, ?_, hanswer⟩
  rw [← outcome_eq_zero_iff before, ← Nat.sub_zero count, ← hanswer]

end Rules

/-- The directory of the small volume is filled with 2, and so is the name. -/
theorem find_file_spec_small_volume : ∃ after,
    exec (handle smallDrive 0x0500) (fatFindFile 0x0500 smallVolume 0x100 ⟨0, 0⟩) ⟨fun _ ↦ 2, 0⟩ =
      some ((0, ⟨0x0202, 0x02020202⟩), after) := by
  have houtside : OutsideBuffer 0x100 := by
    unfold OutsideBuffer
    decide
  have hreadable : Readable smallDrive smallVolume 0 1 := ⟨by decide, fun _ _ ↦ rfl, .inl rfl⟩
  obtain ⟨code, found, after, hexec, -, hanswer⟩ :=
    @find_file_spec smallDrive 0x0500 ⟨fun _ ↦ 2, 0⟩ (fun _ ↦ 2) 0x100 smallVolume rfl
      (fun _ _ ↦ rfl) houtside 1 hreadable ⟨0, 0⟩
  rw [hanswer] at hexec
  exact ⟨after, hexec⟩

end NeilOS.Loader
