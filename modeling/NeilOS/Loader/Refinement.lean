import NeilOS.Disk.Retry
import NeilOS.Foundation.Refine
import NeilOS.Loader.Fat

/-!
# The loader over the BIOS

The C code of the loader is modelled over a drive that answers `disk_read_sector` by success or failure.
Here its two disk operations are replaced by calls of the assembly routines over `INT 13h`. Whatever the C
code guarantees over every drive, it guarantees over the BIOS: the three attempts of the routine make one
read of the drive, the sector it stores is the one the block address selects, and a read that fails three
times has changed its own buffer only.

The memory is that of the C code without its stack. Every call finds room on a stack of its own, apart from
the buffers: the `ret` of the routines leaves two bytes of the return address behind, so a function of the
loader has two bytes less for each read that it has made.
-/

namespace NeilOS.Loader

open Foundation Program
open Disk (Bios)

/-- The operations of the loader as calls of the routines of `disk.asm`. -/
def overBios (number : Byte) (callSite : BitVec 16) : (op : LoaderOp) → Disk.BiosProgram op.Answer
  | .diskGetParams => Disk.callDiskGetParams number
  | .diskReadSector lba segment offset => Disk.callDiskReadSector number callSite lba segment offset
  | .load pointer => perform (.load pointer) result

/-- Of three attempts in a row at one sector one succeeds. -/
def Reliable (bios : Bios) : Prop :=
  ∀ attempt address, ∃ index < 3, bios.succeeds (attempt + index) address = true

/-- A buffer that has no byte in common with an area. -/
def Avoids (area : Word → Prop) (buffer : Word) : Prop :=
  ∀ target, area target → 512 ≤ (target - buffer).toNat

/-- The reads of a program do not store into an area. -/
def Spares (area : Word → Prop) : Machine → LoaderOp → Prop :=
  Allows fun _ _ buffer ↦ Avoids area buffer

/-- A drive with the sectors of the BIOS whose failing reads leave an area alone. -/
structure Abstracts (bios : Bios) (area : Word → Prop) (drive : Drive) : Prop where
  params : drive.paramsKnown = bios.paramsKnown
  sector : drive.sector = bios.sectorAt
  succeeds : Reliable bios → ∀ number, drive.succeeds number = true
  leaves : ∀ number memory target, area target → drive.leaves number memory target = memory target

/-! ## One operation -/

/-- How one read of the drive ends. -/
structure Choice where
  succeeds : Bool
  leaves : Memory → Memory

/-- The drive whose reads end as an oracle says. -/
def driveOf (bios : Bios) (oracle : ℕ → Choice) : Drive where
  paramsKnown := bios.paramsKnown
  sector := bios.sectorAt
  succeeds number := (oracle number).succeeds
  leaves number := (oracle number).leaves

structure Admissible (bios : Bios) (area : Word → Prop) (choice : Choice) : Prop where
  succeeds : Reliable bios → choice.succeeds = true
  leaves : ∀ memory target, area target → choice.leaves memory target = memory target

/-- The machine of the C code, seen in the machine of the routines. -/
structure Implements (bios : Bios) (below : Disk.Machine) (above : Machine) : Prop where
  known : bios.Known below
  memory : below.memory = above.memory

section Steps

variable {bios : Bios} {ds callSite : BitVec 16} {area : Word → Prop}

theorem abstracts_driveOf {oracle : ℕ → Choice} (h : ∀ number, Admissible bios area (oracle number)) :
    Abstracts bios area (driveOf bios oracle) :=
  ⟨rfl, rfl, fun hreliable number ↦ (h number).succeeds hreliable, fun number ↦ (h number).leaves⟩

theorem handle_reads {drive : Drive} {op : LoaderOp} {machine : Machine} {reply : op.Answer × Machine}
    (h : handle drive ds op machine = some reply) : machine.reads ≤ reply.2.reads := by
  cases op with
  | diskGetParams =>
    rw [← Option.some.inj h]
  | load pointer =>
    rw [← Option.some.inj h]
  | diskReadSector lba segment offset =>
    simp only [handle] at h
    split at h
    all_goals
      rw [← Option.some.inj h]
      exact Nat.le_succ _

theorem consults_drive : Consults (fun oracle ↦ handle (driveOf bios oracle) ds) Machine.reads where
  congr oracle other op machine hsame := by
    cases op with
    | diskGetParams => rfl
    | load pointer => rfl
    | diskReadSector lba segment offset =>
      simp only [handle, driveOf, hsame]
      rfl
  forward _ _ _ _ hreply := handle_reads hreply

/-- Three attempts of the routine make one read of the drive. -/
theorem implements_read {below after : Disk.Traffic} {above : Machine} {lba : Word}
    {segment offset : BitVec 16} {code : ℤ} (hbuffer : Avoids area (linearAddress segment offset))
    (hbelow : below.memory = above.memory)
    (h : Disk.Attempts bios (bios.addressOf lba) (linearAddress segment offset) 3 below code after) :
    ∃ next : Machine, after.memory = next.memory ∧
      Matches (fun oracle ↦ handle (driveOf bios oracle) ds) Machine.reads (Admissible bios area)
        (.diskReadSector lba segment offset) above (code, next) := by
  cases h with
  | success failed hfailed hbefore hsuccess =>
    refine ⟨⟨storeSector above.memory (linearAddress segment offset) (bios.sectorAt lba),
      above.reads + 1⟩, ?_, ?_⟩
    · rw [hbelow, bios.block_addressOf]
      rfl
    · refine .choose ⟨true, id⟩ ⟨fun _ ↦ rfl, fun _ _ _ ↦ rfl⟩ (Nat.lt_succ_self _) fun oracle hchoice ↦ ?_
      simp only [handle, driveOf, hchoice, if_true]
  | failure memory hall houtside =>
    refine ⟨⟨memory, above.reads + 1⟩, rfl, ?_⟩
    -- Inside its buffer the read leaves what the BIOS left, and outside it leaves everything alone.
    let leaves (before : Memory) (target : Word) : Byte :=
      if (target - linearAddress segment offset).toNat < 512 then memory target else before target
    have hadmissible : Admissible bios area ⟨false, leaves⟩ := by
      constructor
      · intro hreliable
        obtain ⟨index, hindex, hsuccess⟩ := hreliable below.attempts (bios.addressOf lba)
        rw [hall index hindex] at hsuccess
        exact absurd hsuccess (by decide)
      · exact fun before target harea ↦ if_neg (Nat.not_lt.mpr (hbuffer target harea))
    have hleaves : leaves above.memory = memory := by
      funext target
      by_cases hinside : (target - linearAddress segment offset).toNat < 512
      · exact if_pos hinside
      · rw [← hbelow]
        exact (if_neg hinside).trans (houtside target (Nat.not_lt.mp hinside)).symm
    refine .choose ⟨false, leaves⟩ hadmissible (Nat.lt_succ_self _) fun oracle hchoice ↦ ?_
    simp only [handle, driveOf, hchoice, hleaves]
    rfl

theorem implements_step (op : LoaderOp) (below : Disk.Machine) (above : Machine)
    (hbelow : Implements bios below above) (hallowed : Spares area above op) :
    ∃ reply next, implemented (overBios bios.number callSite) (bios.handle ds) op below = some reply ∧
      Implements bios reply.2 next ∧
      Matches (fun oracle ↦ handle (driveOf bios oracle) ds) Machine.reads (Admissible bios area)
        op above (reply.1, next) := by
  cases op with
  | diskGetParams =>
    obtain ⟨code, after, hexec, htraffic, hcases⟩ :=
      (@Disk.callDiskGetParams_spec bios ds below).exec
    have hmemory : after.memory = below.memory := by rw [htraffic]
    refine ⟨(code, after), above, hexec, ⟨?_, hmemory.trans hbelow.memory⟩, .always fun oracle ↦ ?_⟩
    · rcases hcases with ⟨-, -, hknown⟩ | ⟨-, -, hsectors, hheads⟩
      · exact hknown
      · exact ⟨hsectors.trans hbelow.known.1, hheads.trans hbelow.known.2⟩
    · rcases hcases with ⟨hparams, rfl, -⟩ | ⟨hparams, rfl, -⟩
      · simp [handle, driveOf, hparams]
      · simp [handle, driveOf, hparams]
  | load pointer =>
    refine ⟨(below.memory (linearAddress ds 0 + pointer), below), above, rfl, hbelow, .always fun _ ↦ ?_⟩
    rw [hbelow.memory]
    rfl
  | diskReadSector lba segment offset =>
    obtain ⟨code, after, hexec, hattempts, hknown⟩ :=
      (@Disk.callDiskReadSector_spec bios ds callSite lba segment offset below hbelow.known).exec
    obtain ⟨next, hmemory, hmatches⟩ := implements_read hallowed hbelow.memory hattempts
    exact ⟨(code, after), next, hexec, ⟨hknown, hmemory⟩, hmatches⟩

/-- What a program of the loader guarantees over every drive with the sectors of the BIOS, it guarantees
when its disk operations are the routines over `INT 13h`. -/
theorem meets_over_bios {α : Type} {program : LoaderProgram α} {post : α → Memory → Prop}
    {machine : Disk.Machine} (hknown : bios.Known machine)
    (h : ∀ drive, Abstracts bios area drive →
      Meets (handle drive ds) (Spares area) program ⟨machine.memory, 0⟩
        fun value after ↦ post value after.memory) :
    ∃ value after, exec (bios.handle ds) (program.translate (overBios bios.number callSite)) machine =
      some (value, after) ∧ post value after.memory := by
  have hstart : Implements bios machine ⟨machine.memory, 0⟩ := ⟨hknown, rfl⟩
  obtain ⟨value, after, last, hexec, hlast, hpost⟩ := Meets.resolve consults_drive
    ⟨⟨true, id⟩, ⟨fun _ ↦ rfl, fun _ _ _ ↦ rfl⟩⟩ (fun op below above ↦ implements_step op below above)
    hstart fun oracle hadmissible ↦ h _ (abstracts_driveOf hadmissible)
  rw [exec_translate]
  rw [← hlast.memory] at hpost
  exact ⟨value, after, hexec, hpost⟩

/-- A program that starts with `disk_get_params` and gives up if that fails needs no geometry before. -/
theorem meets_over_bios_from_start {α : Type} {next : ℤ → LoaderProgram α} {gaveUp : α}
    {post : α → Memory → Prop} {machine : Disk.Machine} (hgaveUp : next (-1) = result gaveUp)
    (h : ∀ drive, Abstracts bios area drive →
      Meets (handle drive ds) (Spares area) (perform .diskGetParams next) ⟨machine.memory, 0⟩
        fun value after ↦ post value after.memory) :
    ∃ value after, exec (bios.handle ds)
        ((perform .diskGetParams next : LoaderProgram α).translate (overBios bios.number callSite)) machine =
          some (value, after) ∧
      post value after.memory ∧ (bios.paramsKnown = false → value = gaveUp) := by
  obtain ⟨code, asked, hasked, htraffic, hcases⟩ := (@Disk.callDiskGetParams_spec bios ds machine).exec
  have hmemory : asked.memory = machine.memory := by rw [htraffic]
  -- Over a drive the first answer is that of the BIOS.
  have hnext (drive : Drive) (hdrive : Abstracts bios area drive) :
      Meets (handle drive ds) (Spares area) (next (if bios.paramsKnown then 0 else -1))
        ⟨machine.memory, 0⟩ fun value after ↦ post value after.memory := by
    obtain ⟨-, reply, hreply, hrest⟩ := h drive hdrive
    rw [← Option.some.inj hreply] at hrest
    rw [← hdrive.params]
    exact hrest
  have hrun : exec (bios.handle ds)
      ((perform .diskGetParams next : LoaderProgram α).translate (overBios bios.number callSite)) machine =
        exec (bios.handle ds) ((next code).translate (overBios bios.number callSite)) asked := by
    change exec (bios.handle ds) (Disk.callDiskGetParams bios.number >>= fun code ↦
      (next code).translate (overBios bios.number callSite)) machine = _
    rw [exec_bind, hasked]
    rfl
  rw [hrun]
  rcases hcases with ⟨hparams, rfl, hknown⟩ | ⟨hparams, rfl, -⟩
  · rw [hparams, ← hmemory] at hnext
    obtain ⟨value, after, hexec, hpost⟩ := meets_over_bios hknown hnext
    exact ⟨value, after, hexec, hpost, fun hunknown ↦ absurd (hparams.symm.trans hunknown) (by decide)⟩
  · have hdefault := hnext (driveOf bios fun _ ↦ ⟨true, id⟩)
      (abstracts_driveOf fun _ ↦ ⟨fun _ ↦ rfl, fun _ _ _ ↦ rfl⟩)
    rw [hparams, if_neg Bool.false_ne_true, hgaveUp] at hdefault
    rw [← hmemory] at hdefault
    refine ⟨gaveUp, asked, ?_, hdefault, fun _ ↦ rfl⟩
    rw [hgaveUp]
    rfl

/-- **The loader over the BIOS.** Once `disk_get_params` has stored the geometry, the run of a program over
`INT 13h` is its run over a drive that delivers the same sectors, with up to three attempts in place of a
read. It needs no failing read if one of three attempts always succeeds, and its failing reads leave alone
what the program stays away from. -/
theorem bios_run_is_drive_run {α : Type} {program : LoaderProgram α} {machine : Disk.Machine}
    (hknown : bios.Known machine)
    (hreturns : ∀ drive, Abstracts bios area drive →
      Meets (handle drive ds) (Spares area) program ⟨machine.memory, 0⟩ fun _ _ ↦ True) :
    ∃ drive value after last, Abstracts bios area drive ∧
      exec (bios.handle ds) (program.translate (overBios bios.number callSite)) machine = some (value, after) ∧
      exec (handle drive ds) program ⟨machine.memory, 0⟩ = some (value, last) ∧
      after.memory = last.memory := by
  let isDriveRun (value : α) (memory : Memory) : Prop := ∃ drive last, Abstracts bios area drive ∧
    exec (handle drive ds) program ⟨machine.memory, 0⟩ = some (value, last) ∧ memory = last.memory
  have hmeets : ∀ drive, Abstracts bios area drive →
      Meets (handle drive ds) (Spares area) program ⟨machine.memory, 0⟩
        fun value after ↦ isDriveRun value after.memory := by
    intro drive hdrive
    exact (hreturns drive hdrive).with_exec.mono fun value after hafter ↦
      ⟨drive, after, hdrive, hafter.2, rfl⟩
  obtain ⟨value, after, hexec, drive, last, hdrive, hlast, hmemory⟩ := meets_over_bios hknown hmeets
  exact ⟨drive, value, after, last, hdrive, hexec, hlast, hmemory⟩

end Steps

/-- The slow floppy disk, whose reads succeed at the third attempt each. -/
theorem bios_run_is_drive_run_slow_floppy :
    ∃ drive after last, Abstracts Disk.slowFloppy (fun _ ↦ False) drive ∧
      exec (Disk.slowFloppy.handle 0x0500)
        ((diskReadSector 33 0x0500 0x3400).translate (overBios 0 0x0200)) (.fresh (fun _ ↦ 0) 18 2) =
          some (0, after) ∧
      exec (handle drive 0x0500) (diskReadSector 33 0x0500 0x3400) ⟨fun _ ↦ 0, 0⟩ = some (0, last) ∧
      after.memory = last.memory := by
  have hknown : Disk.slowFloppy.Known (.fresh (fun _ ↦ 0) 18 2) := ⟨rfl, rfl⟩
  have hreliable : Reliable Disk.slowFloppy := by
    intro attempt _
    refine ⟨(2 + 3 - attempt % 3) % 3, Nat.mod_lt _ (by decide), ?_⟩
    simp only [Disk.slowFloppy, beq_iff_eq]
    omega
  have hreturns (drive : Drive) : Meets (handle drive 0x0500) (Spares fun _ ↦ False)
      (diskReadSector 33 0x0500 0x3400) ⟨fun _ ↦ 0, 0⟩ fun _ _ ↦ True :=
    meets_read (fun _ htarget ↦ htarget.elim) (fun _ ↦ trivial) fun _ ↦ trivial
  obtain ⟨drive, value, after, last, hdrive, hexec, hlast, hmemory⟩ :=
    bios_run_is_drive_run hknown fun drive _ ↦ hreturns drive
  obtain rfl : value = 0 := by
    have hsuccess := hdrive.succeeds hreliable 0
    simp only [diskReadSector, exec, handle, hsuccess, if_true, Option.bind_some] at hlast
    exact (Prod.mk.inj (Option.some.inj hlast)).1.symm
  exact ⟨drive, after, last, hdrive, hexec, hlast, hmemory⟩

end NeilOS.Loader
