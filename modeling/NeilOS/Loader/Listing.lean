import NeilOS.Loader.Directory
import NeilOS.Output.Stage2

/-!
# Listing the root directory

If the kernel is not found, `debug_dump_root_dir` prints the names of up to twelve files. It reads the
directory sector by sector like the search, ends at the end marker, and gives up with a message if a read
fails. After the twelfth name it still reads the remaining sectors but looks at none of their entries.

What is printed is a list of characters, as in the model of `print.c`.
-/

namespace NeilOS.Loader

open Foundation Program
open Terminal (ascii)

/-- The characters of a string literal. -/
def text (str : String) : List Byte := str.toList.map ascii

/-- `bios_print` of a string literal. -/
def biosPrint (str : List Byte) (screen : List Byte) : List Byte :=
  str.foldl (fun screen c ↦ (Stage2.putchar (c.setWidth 32) screen).2) screen

/-- The rest of the loop of `debug_print_name83` from index `i` on. -/
def debugPrintName83From (e : Word) : ℕ → BitVec 16 → List Byte → LoaderProgram (List Byte)
  | 0, _, screen => return screen
  | left + 1, i, screen => do
    let c ← load (e + i.setWidth 32)
    debugPrintName83From e left (i + 1)
      (Stage2.biosPrintChar (if c = ascii ' ' then ascii '_' else c) screen)

def debugPrintName83 (e : Word) (screen : List Byte) : LoaderProgram (List Byte) :=
  debugPrintName83From e 8 0 screen

/-- The variables after the inner loop of `debug_dump_root_dir`, and whether the function has returned. -/
structure Dumped where
  returned : Bool
  printed : BitVec 16
  screen : List Byte

/-- The inner loop of `debug_dump_root_dir`, from the entry at `e` on. -/
def dumpInSector : ℕ → Word → BitVec 16 → List Byte → LoaderProgram Dumped
  | 0, _, printed, screen => return ⟨false, printed, screen⟩
  | left + 1, e, printed, screen =>
    if printed < 12 then do
      let first ← load e
      if first = 0x00 then return ⟨true, printed, screen⟩
      else if first = 0xE5 then dumpInSector left (e + dirEntrySize) printed screen
      else
        let attributes ← load (e + 11)
        if attributes = 0x0F then dumpInSector left (e + dirEntrySize) printed screen
        else if attributes &&& 0x10 ≠ 0 ∨ attributes &&& 0x08 ≠ 0 then
          dumpInSector left (e + dirEntrySize) printed screen
        else
          let screen ← debugPrintName83 e (biosPrint (text "   ") screen)
          dumpInSector left (e + dirEntrySize) (printed + 1) (biosPrint (text "\n") screen)
    else return ⟨false, printed, screen⟩

/-- The outer loop of `debug_dump_root_dir` from sector `i` on. -/
def dumpInSectors (ds : BitVec 16) (volume : Volume) :
    ℕ → Word → BitVec 16 → List Byte → LoaderProgram (List Byte)
  | 0, _, _, screen => return screen
  | left + 1, i, printed, screen => do
    if (← diskReadSector (volume.firstRootDirSector + i) ds (rootDirSeg.setWidth 16)) ≠ 0 then
      return biosPrint (text "ERROR: cannot read!\n") screen
    else
      let entries := volume.bytesPerSector / dirEntrySize.setWidth 16
      let dumped ← dumpInSector entries.toNat rootDirSeg printed screen
      if dumped.returned then return dumped.screen
      else dumpInSectors ds volume left (i + 1) dumped.printed dumped.screen

/-- Returns the screen it leaves. -/
def debugDumpRootDir (ds : BitVec 16) (volume : Volume) (screen : List Byte) :
    LoaderProgram (List Byte) :=
  dumpInSectors ds volume volume.rootDirSectors.toNat 0 0
    (biosPrint (text "Root entries seen:\n") screen)

/-! ## The listing of a directory -/

namespace DirEntry

/-- The entry is a file: not deleted, not part of a long name, and neither a directory nor a label. -/
def Listed (entry : DirEntry) : Prop :=
  entry 0 ≠ 0xE5 ∧ entry 11 ≠ 0x0F ∧ ¬ (entry 11 &&& 0x10 ≠ 0 ∨ entry 11 &&& 0x08 ≠ 0)

instance (entry : DirEntry) : Decidable entry.Listed := inferInstanceAs (Decidable (_ ∧ _))

/-- The name without the extension, with its blanks made visible. -/
def shownName (entry : DirEntry) : List Byte :=
  (List.range 8).map fun index ↦ if entry index = ascii ' ' then ascii '_' else entry index

def line (entry : DirEntry) : List Byte := text "   " ++ entry.shownName ++ text "\r\n"

end DirEntry

/-- The files before the end marker, up to twelve. -/
def listing (entries : List DirEntry) : List DirEntry :=
  ((entries.takeWhile fun entry ↦ entry 0 ≠ 0).filter fun entry ↦ entry.Listed).take 12

/-- The end marker is reached before the twelfth file. -/
def MarkerReached (entries : List DirEntry) : Prop :=
  (∃ entry ∈ entries, entry 0 = 0) ∧
    ((entries.takeWhile fun entry ↦ entry 0 ≠ 0).filter fun entry ↦ entry.Listed).length < 12

instance (entries : List DirEntry) : Decidable (MarkerReached entries) := inferInstanceAs (Decidable (_ ∧ _))

/-- What the loops have done with some entries: whether they have reached the end marker, how many names
have been printed by then, and what was printed. -/
structure Scan where
  returned : Bool
  printed : ℕ
  shown : List Byte

namespace Scan

def after (shown : List Byte) (rest : Scan) : Scan := { rest with shown := shown ++ rest.shown }

/-- Going on with further entries. -/
def andThen (first : Scan) (next : ℕ → Scan) : Scan :=
  if first.returned then first else (next first.printed).after first.shown

theorem after_andThen (shown : List Byte) (first : Scan) (next : ℕ → Scan) :
    (first.after shown).andThen next = (first.andThen next).after shown := by
  cases hreturned : first.returned <;> simp [andThen, after, hreturned]

end Scan

/-- The scan of a list of entries when `printed` names have been printed. -/
def scan : ℕ → List DirEntry → Scan
  | printed, [] => ⟨false, printed, []⟩
  | printed, entry :: rest =>
    if printed < 12 then
      if entry 0 = 0 then ⟨true, printed, []⟩
      else if entry.Listed then (scan (printed + 1) rest).after entry.line
      else scan printed rest
    else ⟨false, printed, []⟩

theorem scan_full {printed : ℕ} (h : 12 ≤ printed) (entries : List DirEntry) :
    scan printed entries = ⟨false, printed, []⟩ := by
  cases entries with
  | nil => rfl
  | cons entry rest => exact if_neg (Nat.not_lt.mpr h)

theorem scan_append (printed : ℕ) (first second : List DirEntry) :
    scan printed (first ++ second) = (scan printed first).andThen fun count ↦ scan count second := by
  induction first generalizing printed with
  | nil => rfl
  | cons entry rest ih =>
    rcases Nat.lt_or_ge printed 12 with hmore | hfull
    · simp only [List.cons_append, scan, if_pos hmore]
      split_ifs with hend hlisted
      · rfl
      · rw [ih, Scan.after_andThen]
      · rw [ih]
    · rw [scan_full hfull, scan_full hfull, Scan.andThen, if_neg Bool.false_ne_true]
      exact (scan_full hfull second).symm

theorem scan_printed_le {printed : ℕ} (h : printed ≤ 12) (entries : List DirEntry) :
    (scan printed entries).printed ≤ 12 := by
  induction entries generalizing printed with
  | nil => exact h
  | cons entry rest ih =>
    rw [scan]
    split_ifs with hmore hend hlisted
    · exact h
    · exact ih hmore
    · exact ih h
    · exact h

/-- The scan in terms of the files before the end marker. -/
theorem scan_spec {printed : ℕ} (hprinted : printed ≤ 12) (entries : List DirEntry) :
    (scan printed entries).shown = (((entries.takeWhile fun entry ↦ entry 0 ≠ 0).filter
        fun entry ↦ entry.Listed).take (12 - printed)).flatMap DirEntry.line ∧
      ((scan printed entries).returned = true ↔ (∃ entry ∈ entries, entry 0 = 0) ∧
        printed + ((entries.takeWhile fun entry ↦ entry 0 ≠ 0).filter
          fun entry ↦ entry.Listed).length < 12) := by
  induction entries generalizing printed with
  | nil => simp [scan]
  | cons entry rest ih =>
    rcases Nat.lt_or_ge printed 12 with hmore | hfull
    · rw [scan, if_pos hmore]
      split_ifs with hend hlisted
      · simp [hend, hmore]
      · obtain ⟨hshown, hreturned⟩ := ih (Nat.succ_le_of_lt hmore)
        have hcount : 12 - printed = 12 - (printed + 1) + 1 := by omega
        rw [List.takeWhile_cons_of_pos (by simpa using hend), List.filter_cons_of_pos (by simpa using hlisted)]
        constructor
        · rw [Scan.after, hshown, hcount, List.take_succ_cons, List.flatMap_cons]
        · rw [Scan.after, hreturned, List.length_cons, List.exists_mem_cons_iff, or_iff_right hend]
          exact and_congr_right fun _ ↦ by omega
      · obtain ⟨hshown, hreturned⟩ := ih hprinted
        rw [List.takeWhile_cons_of_pos (by simpa using hend), List.filter_cons_of_neg (by simpa using hlisted),
          List.exists_mem_cons_iff, or_iff_right hend]
        exact ⟨hshown, hreturned⟩
    · obtain rfl : printed = 12 := Nat.le_antisymm hprinted hfull
      rw [scan_full hfull]
      simp

/-! ## The loops -/

/-- The characters that `bios_print` gives to the BIOS. -/
def rendered (str : List Byte) : List Byte :=
  str.flatMap fun c ↦ if c = ascii '\n' then [ascii '\r', c] else [c]

theorem biosPrint_eq (str screen : List Byte) : biosPrint str screen = screen ++ rendered str := by
  induction str generalizing screen with
  | nil => exact (List.append_nil screen).symm
  | cons c str ih =>
    have hbyte : ((c.setWidth 32).setWidth 8 : Byte) = c := by simp
    have hnewline : (c.setWidth 32 : Word) = 0x0A ↔ c = ascii '\n' := by
      change _ ↔ c = 0x0A
      bv_omega
    rw [biosPrint, List.foldl_cons, ← biosPrint, ih, rendered, rendered, List.flatMap_cons,
      ← List.append_assoc]
    simp only [Stage2.putchar, Stage2.biosPrintChar, hbyte, hnewline]
    split_ifs
    · simp [ascii]
    · rfl

theorem rendered_blanks : rendered (text "   ") = text "   " := rfl

theorem rendered_newline : rendered (text "\n") = text "\r\n" := rfl

section Loops

variable {drive : Drive} {ds : BitVec 16} {machine : Machine} {sector : ℕ → Byte}

theorem debugPrintName83From_spec (hholds : Holds ds rootDirSeg sector machine) {start left first : ℕ}
    (hstart : start + 8 ≤ 512) (hleft : first + left ≤ 8) (screen : List Byte) :
    Meets (handle drive ds) Unrestricted
      (debugPrintName83From (rootDirSeg + .ofNat 32 start) left (.ofNat 16 first) screen) machine
      fun out after ↦ after = machine ∧ out = screen ++ (List.range' first left).map fun index ↦
        if sector (start + index) = ascii ' ' then ascii '_' else sector (start + index) := by
  induction left generalizing first screen with
  | zero => exact ⟨rfl, (List.append_nil screen).symm⟩
  | succ left ih =>
    have hpointer : rootDirSeg + BitVec.ofNat 32 start + (BitVec.ofNat 16 first).setWidth 32 =
        rootDirSeg + .ofNat 32 (start + first) := by
      rw [← pointer_add]
      congr 1
      apply BitVec.eq_of_toNat_eq
      simp only [BitVec.toNat_setWidth, BitVec.toNat_ofNat]
      omega
    have hnext : BitVec.ofNat 16 first + 1 = BitVec.ofNat 16 (first + 1) :=
      (BitVec.ofNat_add first 1).symm
    rw [debugPrintName83From, meets_bind, meets_load, hpointer, hholds _ (by omega), hnext]
    refine (ih (by omega) _).mono ?_
    rintro out after ⟨hsame, rfl⟩
    refine ⟨hsame, ?_⟩
    rw [List.range'_succ, List.map_cons, Stage2.biosPrintChar, List.append_assoc]
    rfl

/-- The inner loop scans the entries of the sector in the buffer. -/
theorem dumpInSector_spec (hholds : Holds ds rootDirSeg sector machine) {left number printed : ℕ}
    (hcount : number + left = 16) (hprinted : printed ≤ 12) (screen : List Byte) :
    Meets (handle drive ds) Unrestricted
      (dumpInSector left (rootDirSeg + .ofNat 32 (32 * number)) (.ofNat 16 printed) screen) machine
      fun out after ↦ after = machine ∧
        out = ⟨(scan printed (sectorEntries sector number left)).returned,
          .ofNat 16 (scan printed (sectorEntries sector number left)).printed,
          screen ++ (scan printed (sectorEntries sector number left)).shown⟩ := by
  induction left generalizing number printed screen with
  | zero => exact ⟨rfl, by rw [sectorEntries]; simp [scan]⟩
  | succ left ih =>
    obtain ⟨entry, hentry⟩ : ∃ entry : DirEntry, (fun offset ↦ sector (32 * number + offset)) = entry :=
      ⟨_, rfl⟩
    have hbyte (offset : ℕ) : sector (32 * number + offset) = entry offset := by rw [← hentry]
    have hentries : sectorEntries sector number (left + 1) =
        entry :: sectorEntries sector (number + 1) left := by
      rw [← hentry, sectorEntries, List.range'_succ]
      rfl
    have hnext : rootDirSeg + BitVec.ofNat 32 (32 * number) + dirEntrySize =
        rootDirSeg + .ofNat 32 (32 * (number + 1)) := pointer_add rootDirSeg (32 * number) 32
    have hfirst : machine.memory
        (linearAddress ds 0 + (rootDirSeg + .ofNat 32 (32 * number))) = entry 0 := by
      rw [hholds _ (by omega), ← hbyte]
      rfl
    have hattributes : machine.memory
        (linearAddress ds 0 + (rootDirSeg + .ofNat 32 (32 * number) + 11)) = entry 11 := by
      rw [← hbyte, ← hholds _ (by omega)]
      exact congrArg _ (congrArg _ (pointer_add rootDirSeg (32 * number) 11))
    have hless : BitVec.ofNat 16 printed < 12 ↔ printed < 12 := by
      rw [BitVec.lt_def, BitVec.toNat_ofNat, Nat.mod_eq_of_lt (by omega)]
      rfl
    rw [hentries, dumpInSector, scan]
    by_cases hmore : printed < 12
    · rw [if_pos (hless.mpr hmore), if_pos hmore, meets_bind, meets_load, hfirst, hnext]
      by_cases hend : entry 0 = 0
      · rw [if_pos hend, if_pos hend]
        exact ⟨rfl, by simp⟩
      rw [if_neg hend, if_neg hend]
      by_cases hdeleted : entry 0 = 0xE5
      · have hother : ¬ entry.Listed := fun hlisted ↦ hlisted.1 hdeleted
        rw [if_pos hdeleted, if_neg hother]
        exact ih (by omega) hprinted screen
      rw [if_neg hdeleted, meets_bind, meets_load, hattributes]
      by_cases hlong : entry 11 = 0x0F
      · have hother : ¬ entry.Listed := fun hlisted ↦ hlisted.2.1 hlong
        rw [if_pos hlong, if_neg hother]
        exact ih (by omega) hprinted screen
      rw [if_neg hlong]
      by_cases hkind : entry 11 &&& 0x10 ≠ 0 ∨ entry 11 &&& 0x08 ≠ 0
      · have hother : ¬ entry.Listed := fun hlisted ↦ hlisted.2.2 hkind
        rw [if_pos hkind, if_neg hother]
        exact ih (by omega) hprinted screen
      have hlisted : entry.Listed := ⟨hdeleted, hlong, hkind⟩
      rw [if_neg hkind, if_pos hlisted, meets_bind]
      refine (debugPrintName83From_spec hholds (by omega) (Nat.le_refl 8) _).mono ?_
      rintro out after ⟨rfl, rfl⟩
      have hone : BitVec.ofNat 16 printed + 1 = BitVec.ofNat 16 (printed + 1) :=
        (BitVec.ofNat_add printed 1).symm
      rw [hone, biosPrint_eq, biosPrint_eq]
      refine (ih (by omega) hmore _).mono ?_
      rintro out after ⟨hsame, rfl⟩
      refine ⟨hsame, (Dumped.mk.injEq ..).mpr ⟨rfl, rfl, ?_⟩⟩
      simp only [hbyte, Scan.after, DirEntry.line, DirEntry.shownName, rendered_blanks, rendered_newline,
        List.range_eq_range', List.append_assoc]
    · rw [if_neg (fun h ↦ hmore (hless.mp h)), if_neg hmore]
      exact ⟨rfl, by simp⟩

/-- A read that succeeds is not the one that stops a loop over the directory. -/
theorem Readable.lt_of_success {volume : Volume} {start count number : ℕ}
    (h : Readable drive volume start count) (hsuccess : drive.succeeds (start + number) = true)
    (hle : number ≤ count) (hnumber : number < volume.rootDirSectors.toNat) : number < count := by
  refine Nat.lt_of_le_of_ne hle ?_
  rintro rfl
  rcases h.stops with hend | hfailed
  · exact hnumber.ne hend
  · rw [hsuccess] at hfailed
    exact absurd hfailed (by decide)

/-- A read that fails is the one that stops it. -/
theorem Readable.eq_of_failure {volume : Volume} {start count number : ℕ}
    (h : Readable drive volume start count) (hfailed : drive.succeeds (start + number) = false)
    (hle : number ≤ count) : number = count := by
  refine Nat.le_antisymm hle (Nat.not_lt.mp fun hmore ↦ ?_)
  rw [h.succeed number hmore] at hfailed
  exact absurd hfailed (by decide)

/-- The outer loop scans the sectors it can read. -/
theorem dumpInSectors_spec {volume : Volume} {start count left number printed : ℕ}
    (hbytes : volume.bytesPerSector = 512) (hreadable : Readable drive volume start count)
    (hcount : number + left = volume.rootDirSectors.toNat) (hnumber : number ≤ count)
    (hreads : machine.reads = start + number) (hprinted : printed ≤ 12) (screen : List Byte) :
    Meets (handle drive ds) Unrestricted
      (dumpInSectors ds volume left (.ofNat 32 number) (.ofNat 16 printed) screen) machine fun out _ ↦
        out = screen ++ (scan printed (directory drive volume number (count - number))).shown ++
          if count < volume.rootDirSectors.toNat ∧
              (scan printed (directory drive volume number (count - number))).returned = false then
            rendered (text "ERROR: cannot read!\n")
          else [] := by
  have hentries : (volume.bytesPerSector / dirEntrySize.setWidth 16).toNat = 16 := by
    rw [hbytes]
    rfl
  have hle := hreadable.le
  induction left generalizing number printed screen machine with
  | zero =>
    have hdone : count - number = 0 := by omega
    have hall : ¬ count < volume.rootDirSectors.toNat := by omega
    rw [hdone, if_neg fun h ↦ hall h.1]
    exact (List.append_nil _).symm.trans (List.append_nil _).symm
  | succ left ih =>
    rw [dumpInSectors, meets_bind]
    apply meets_diskReadSector
    · intro hsuccess
      have hmore : number < count := hreadable.lt_of_success (hreads ▸ hsuccess) hnumber (by omega)
      have hrest : count - number = count - (number + 1) + 1 := by omega
      rw [if_neg (by decide)]
      dsimp only
      rw [hentries, hrest, directory_succ, scan_append, meets_bind]
      have hholds := holds_storeSector ds (by decide : rootDirSeg.toNat < 2 ^ 16)
        (drive.sector (volume.firstRootDirSector + .ofNat 32 number)) machine.memory (machine.reads + 1)
      refine (dumpInSector_spec hholds (Nat.zero_add 16) hprinted screen).mono ?_
      rintro out after ⟨rfl, rfl⟩
      have hprinted := scan_printed_le hprinted
        (sectorEntries (drive.sector (volume.firstRootDirSector + .ofNat 32 number)) 0 16)
      generalize scan printed
        (sectorEntries (drive.sector (volume.firstRootDirSector + .ofNat 32 number)) 0 16) = first at hprinted ⊢
      dsimp only
      cases hreturned : first.returned with
      | true =>
        have hquiet : ¬ (count < volume.rootDirSectors.toNat ∧ first.returned = false) := by
          rw [hreturned]
          exact fun h ↦ absurd h.2 (by decide)
        rw [Scan.andThen, if_pos hreturned, if_pos rfl, if_neg hquiet]
        exact (List.append_nil _).symm
      | false =>
        have hnext : BitVec.ofNat 32 number + 1 = BitVec.ofNat 32 (number + 1) :=
          (BitVec.ofNat_add number 1).symm
        rw [Scan.andThen, hreturned, if_neg Bool.false_ne_true, if_neg Bool.false_ne_true, hnext, Scan.after,
          ← List.append_assoc]
        exact ih (by omega) (by omega) (by simp only; omega) hprinted _
    · intro hfailed
      obtain rfl : number = count := hreadable.eq_of_failure (hreads ▸ hfailed) hnumber
      have herror : number < volume.rootDirSectors.toNat ∧
          (scan printed (directory drive volume number (number - number))).returned = false := by
        rw [Nat.sub_self]
        exact ⟨by omega, rfl⟩
      rw [if_pos (by decide), if_pos herror, Nat.sub_self, biosPrint_eq]
      exact congrArg (· ++ _) (List.append_nil screen).symm

theorem debugDumpRootDir_spec {volume : Volume} (hbytes : volume.bytesPerSector = 512) {count : ℕ}
    (hreadable : Readable drive volume machine.reads count) (screen : List Byte) :
    Meets (handle drive ds) Unrestricted (debugDumpRootDir ds volume screen) machine fun out _ ↦
      out = screen ++ text "Root entries seen:\r\n" ++
        (listing (directory drive volume 0 count)).flatMap DirEntry.line ++
        if count < volume.rootDirSectors.toNat ∧ ¬ MarkerReached (directory drive volume 0 count) then
          text "ERROR: cannot read!\r\n"
        else [] := by
  obtain ⟨hshown, hreturned⟩ := scan_spec (Nat.zero_le 12) (directory drive volume 0 count)
  have hmarker : (scan 0 (directory drive volume 0 count)).returned = false ↔
      ¬ MarkerReached (directory drive volume 0 count) := by
    rw [Nat.zero_add] at hreturned
    rw [MarkerReached, ← hreturned, Bool.not_eq_true]
  unfold debugDumpRootDir
  rw [biosPrint_eq]
  refine (dumpInSectors_spec hbytes hreadable (Nat.zero_add _) (Nat.zero_le count) (Nat.add_zero _).symm
    (Nat.zero_le 12) _).mono fun out _ hout ↦ ?_
  rw [hout, Nat.sub_zero, hshown]
  simp only [hmarker]
  rfl

/-- **The listing.** `debug_dump_root_dir` prints the names of the first twelve files before the end
marker in the sectors it can read, each on a line of its own. It reports a read that fails, unless it has
reached the end marker before. -/
theorem dump_lists_files {volume : Volume} (hbytes : volume.bytesPerSector = 512) {count : ℕ}
    (hreadable : Readable drive volume machine.reads count) (screen : List Byte) :
    ∃ after, exec (handle drive ds) (debugDumpRootDir ds volume screen) machine =
      some (screen ++ text "Root entries seen:\r\n" ++
        (listing (directory drive volume 0 count)).flatMap DirEntry.line ++
        (if count < volume.rootDirSectors.toNat ∧ ¬ MarkerReached (directory drive volume 0 count) then
          text "ERROR: cannot read!\r\n"
        else []), after) := by
  obtain ⟨out, after, hexec, rfl⟩ := (debugDumpRootDir_spec hbytes hreadable screen).exec
  exact ⟨after, hexec⟩

end Loops

/-- The sixteen entries of the small volume are files, of which twelve are printed. -/
theorem dump_lists_files_small_volume :
    (listing (directory smallDrive smallVolume 0 1)).length = 12 ∧
    ∃ after, exec (handle smallDrive 0x0500) (debugDumpRootDir 0x0500 smallVolume []) ⟨fun _ ↦ 0, 0⟩ =
      some (text "Root entries seen:\r\n" ++
        (listing (directory smallDrive smallVolume 0 1)).flatMap DirEntry.line, after) := by
  have hreadable : Readable smallDrive smallVolume 0 1 := ⟨by decide, fun _ _ ↦ rfl, .inl rfl⟩
  obtain ⟨after, hexec⟩ :=
    @dump_lists_files smallDrive 0x0500 ⟨fun _ ↦ 0, 0⟩ smallVolume rfl 1 hreadable []
  rw [if_neg fun h ↦ absurd h.1 (by decide), List.append_nil] at hexec
  exact ⟨by decide, after, hexec⟩

end NeilOS.Loader
