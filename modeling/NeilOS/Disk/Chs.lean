import NeilOS.Foundation.Registers

/-!
# Cylinder, head and sector

`INT 13h` takes the address of a sector as cylinder, head and sector in `CH`, `CL` and `DH`. Stage 1
and stage 2 each have a routine that computes them from a block address: the one divides 16-bit words,
the other 32-bit words, and they move the two high bits of the cylinder by different shifts. Both put
the digits of the block address to the mixed base of sectors and heads into the registers, so the
registers agree.

The routines are modelled instruction by instruction. No instruction of theirs reads a flag. A division
whose quotient does not fit raises an exception, which is `none`.
-/

namespace NeilOS

open Foundation

namespace Disk

structure Registers where
  eax : Register
  ebx : Register
  ecx : Register
  edx : Register
  esi : Register
  edi : Register
  es : BitVec 16

/-- `div` of `EDX:EAX` by a 32-bit operand. -/
def Registers.div32 (divisor : Word) (regs : Registers) : Option Registers := do
  let (quotient, remainder) ← divide regs.edx.word regs.eax.word divisor
  some { regs with eax := .ofWord quotient, edx := .ofWord remainder }

/-- `div` of `DX:AX` by a 16-bit operand. -/
def Registers.div16 (divisor : BitVec 16) (regs : Registers) : Option Registers := do
  let (quotient, remainder) ← divide regs.edx.half regs.eax.half divisor
  some { regs with eax := regs.eax.setHalf quotient, edx := regs.edx.setHalf remainder }

/-! ## Stage 1 -/

namespace Stage1

/-- `lba_to_chs` of the boot sector, with the block address in `AX`. -/
def lbaToChs (sectorsPerTrack headsPerCylinder : BitVec 16) (regs : Registers) :
    Option Registers := do
  let regs := { regs with edx := regs.edx.setHalf 0 }
  let regs ← regs.div16 sectorsPerTrack
  let regs := { regs with edx := { regs.edx with low := regs.edx.low + 1 } }
  let regs := { regs with ecx := { regs.ecx with low := regs.edx.low } }
  let regs := { regs with edx := regs.edx.setHalf 0 }
  let regs ← regs.div16 headsPerCylinder
  let regs := { regs with edx := { regs.edx with high := regs.edx.low } }
  let regs := { regs with ecx := { regs.ecx with high := regs.eax.low } }
  let regs := { regs with eax := { regs.eax with high := regs.eax.high <<< 6 } }
  let regs := { regs with ecx := { regs.ecx with low := regs.ecx.low &&& 0x3F } }
  some { regs with ecx := { regs.ecx with low := regs.ecx.low ||| regs.eax.high } }

end Stage1

/-! ## Stage 2 -/

namespace Stage2

/-- `lba_to_chs` of `disk.asm`, with the block address in `EAX`. -/
def lbaToChs (sectorsPerTrack numHeads : BitVec 16) (regs : Registers) : Option Registers := do
  let regs := { regs with ecx := .ofWord (sectorsPerTrack.setWidth 32) }
  let regs := { regs with edx := .ofWord 0 }
  let regs ← regs.div32 regs.ecx.word
  let regs := { regs with ebx := regs.edx }
  let regs := { regs with ebx := .ofWord (regs.ebx.word + 1) }
  let regs := { regs with ecx := .ofWord (numHeads.setWidth 32) }
  let regs := { regs with edx := .ofWord 0 }
  let regs ← regs.div32 regs.ecx.word
  let regs := { regs with esi := regs.eax }
  some { regs with edi := regs.edx }

/-- `disk_read_sector` up to its first `int 0x13`. -/
def diskReadSectorRequest (sectorsPerTrack numHeads : BitVec 16) (drive : Byte) (lba : Word)
    (segment offset : BitVec 16) (regs : Registers) : Option Registers := do
  let regs := { regs with eax := .ofWord lba }
  let regs ← lbaToChs sectorsPerTrack numHeads regs
  let regs := { regs with eax := regs.esi }
  let regs := { regs with ecx := { regs.ecx with high := regs.eax.low } }
  let regs := { regs with eax := .ofWord (regs.eax.word >>> 2) }
  let regs := { regs with eax := { regs.eax with low := regs.eax.low &&& 0xC0 } }
  let regs := { regs with ebx := { regs.ebx with low := regs.ebx.low &&& 0x3F } }
  let regs := { regs with eax := { regs.eax with low := regs.eax.low ||| regs.ebx.low } }
  let regs := { regs with ecx := { regs.ecx with low := regs.eax.low } }
  let regs := { regs with eax := regs.edi }
  let regs := { regs with edx := { regs.edx with high := regs.eax.low } }
  let regs := { regs with edx := { regs.edx with low := drive } }
  let regs := { regs with eax := regs.eax.setHalf segment }
  let regs := { regs with es := regs.eax.half }
  let regs := { regs with ebx := regs.ebx.setHalf offset }
  let regs := { regs with esi := regs.esi.setHalf 3 }
  some { regs with eax := regs.eax.setHalf 0x0201 }

end Stage2

/-! ## Addresses of sectors -/

structure Chs where
  cylinder : ℕ
  head : ℕ
  sector : ℕ

/-- What `INT 13h` reads from `CH`, `CL` and `DH`. -/
def Registers.chs (regs : Registers) : Chs where
  cylinder := regs.ecx.high.toNat + 256 * (regs.ecx.low >>> 6).toNat
  head := regs.edx.high.toNat
  sector := (regs.ecx.low &&& 0x3F).toNat

/-- The digits of a block address. -/
def chsOf (sectors heads lba : ℕ) : Chs where
  cylinder := lba / sectors / heads
  head := lba / sectors % heads
  sector := lba % sectors + 1

/-- A geometry that `INT 13h` can address. -/
structure Geometry where
  sectorsPerTrack : BitVec 16
  numHeads : BitVec 16
  sectors_pos : 1 ≤ sectorsPerTrack.toNat
  sectors_le : sectorsPerTrack.toNat ≤ 63
  heads_pos : 1 ≤ numHeads.toNat
  heads_le : numHeads.toNat ≤ 256

theorem chsOf_lba (sectors heads lba : ℕ) :
    ((chsOf sectors heads lba).cylinder * heads + (chsOf sectors heads lba).head) * sectors +
      (chsOf sectors heads lba).sector - 1 = lba := by
  change (lba / sectors / heads * heads + lba / sectors % heads) * sectors +
    (lba % sectors + 1) - 1 = lba
  rw [Nat.div_add_mod', ← Nat.add_assoc, Nat.add_sub_cancel, Nat.div_add_mod']

/-- Beyond the reach of the cylinder bits the address starts again from the first cylinder. -/
theorem chsOf_mod (sectors heads lba : ℕ) :
    chsOf sectors heads (lba % (1024 * sectors * heads)) =
      ⟨lba / sectors / heads % 1024, lba / sectors % heads, lba % sectors + 1⟩ := by
  have hreach : 1024 * sectors * heads = sectors * (heads * 1024) := by
    rw [Nat.mul_comm 1024, Nat.mul_assoc, Nat.mul_comm 1024]
  have hsector : lba % (sectors * (heads * 1024)) % sectors = lba % sectors :=
    Nat.mod_mod_of_dvd _ (Nat.dvd_mul_right _ _)
  have htrack : lba % (sectors * (heads * 1024)) / sectors = lba / sectors % (heads * 1024) :=
    Nat.mod_mul_right_div_self _ _ _
  have hhead : lba / sectors % (heads * 1024) % heads = lba / sectors % heads :=
    Nat.mod_mod_of_dvd _ (Nat.dvd_mul_right _ _)
  have hcylinder : lba / sectors % (heads * 1024) / heads = lba / sectors / heads % 1024 :=
    Nat.mod_mul_right_div_self _ _ _
  rw [chsOf, hreach, hsector, htrack, hhead, hcylinder]

/-! ## The packed byte -/

theorem toNat_sectorBits (byte : Byte) : (byte &&& 0x3F).toNat = byte.toNat % 64 := by
  rw [BitVec.toNat_and]
  exact Nat.and_two_pow_sub_one_eq_mod byte.toNat 6

theorem toNat_cylinderBits (byte : Byte) : (byte >>> 6).toNat = byte.toNat / 64 := by
  rw [BitVec.toNat_ushiftRight]
  exact Nat.shiftRight_eq_div_pow byte.toNat 6

/-- The registers are determined by the address they hold. -/
theorem Registers.chs_inj {regs other : Registers} (h : regs.chs = other.chs) :
    regs.ecx.high = other.ecx.high ∧ regs.ecx.low = other.ecx.low ∧
      regs.edx.high = other.edx.high := by
  have hcylinder := congrArg Chs.cylinder h
  have hsector := congrArg Chs.sector h
  simp only [Registers.chs, toNat_sectorBits, toNat_cylinderBits] at hcylinder hsector
  have hlow := regs.ecx.high.isLt
  have hotherlow := other.ecx.high.isLt
  refine ⟨BitVec.eq_of_toNat_eq (by omega), BitVec.eq_of_toNat_eq (by omega), ?_⟩
  exact BitVec.eq_of_toNat_eq (congrArg Chs.head h)

theorem toNat_packed (sector : Byte) {cylinder : Byte} (hcylinder : cylinder.toNat < 4) :
    ((sector &&& (0x3F : Byte)) ||| cylinder <<< 6).toNat =
      sector.toNat % 64 + 64 * cylinder.toNat := by
  have hsector : (sector &&& (0x3F : Byte)).toNat < 2 ^ 6 := by
    rw [toNat_sectorBits]
    exact Nat.mod_lt _ (by decide)
  rw [Word.toNat_or_shiftLeft hsector (by omega), toNat_sectorBits]
  rfl

/-- Stage 2 clears the low bits where stage 1 shifts the high ones into place. -/
theorem and_cylinderMask : ∀ byte : Byte, byte &&& (0xC0 : Byte) = (byte >>> 6) <<< 6 := by
  decide

/-- A byte packed from a sector and the two high bits of a cylinder holds both. -/
theorem Registers.chs_of_packed {regs : Registers} {sectors heads lba : ℕ} {sector cylinder : Byte}
    (hpacked : regs.ecx.low = (sector &&& (0x3F : Byte)) ||| cylinder <<< 6)
    (hsector : sector.toNat = lba % sectors + 1) (hsectors : lba % sectors + 1 < 64)
    (hcylinder : cylinder.toNat = lba / sectors / heads / 256)
    (hcylinders : lba / sectors / heads < 1024)
    (hlow : regs.ecx.high.toNat = lba / sectors / heads % 256)
    (hhead : regs.edx.high.toNat = lba / sectors % heads) :
    regs.chs = chsOf sectors heads lba := by
  have hbyte : regs.ecx.low.toNat = sector.toNat % 64 + 64 * cylinder.toNat := by
    rw [hpacked]
    exact toNat_packed sector (by omega)
  have hread : regs.chs.sector = lba % sectors + 1 := by
    change (regs.ecx.low &&& 0x3F).toNat = _
    rw [toNat_sectorBits]
    omega
  have hhigh : regs.chs.cylinder = lba / sectors / heads := by
    change regs.ecx.high.toNat + 256 * (regs.ecx.low >>> 6).toNat = _
    rw [toNat_cylinderBits]
    omega
  exact (Chs.mk.injEq ..).mpr ⟨hhigh, hhead, hread⟩

/-! ## The routines -/

theorem Stage2.lbaToChs_eq {sectorsPerTrack numHeads : BitVec 16} (regs : Registers)
    (hsectors : (sectorsPerTrack.setWidth 32).toNat ≠ 0)
    (hheads : (numHeads.setWidth 32).toNat ≠ 0) :
    Stage2.lbaToChs sectorsPerTrack numHeads regs = some { regs with
      eax := .ofWord (regs.eax.word / sectorsPerTrack.setWidth 32 / numHeads.setWidth 32)
      ebx := .ofWord (regs.eax.word % sectorsPerTrack.setWidth 32 + 1)
      ecx := .ofWord (numHeads.setWidth 32)
      edx := .ofWord (regs.eax.word / sectorsPerTrack.setWidth 32 % numHeads.setWidth 32)
      esi := .ofWord (regs.eax.word / sectorsPerTrack.setWidth 32 / numHeads.setWidth 32)
      edi := .ofWord (regs.eax.word / sectorsPerTrack.setWidth 32 % numHeads.setWidth 32) } := by
  unfold Stage2.lbaToChs
  simp only [Registers.div32, Register.word_ofWord, divide_zero _ hsectors, divide_zero _ hheads,
    Option.bind_eq_bind, Option.bind_some]

theorem Stage2.request_eq {sectorsPerTrack numHeads : BitVec 16} (drive : Byte) (lba : Word)
    (segment offset : BitVec 16) (regs : Registers)
    (hsectors : (sectorsPerTrack.setWidth 32).toNat ≠ 0)
    (hheads : (numHeads.setWidth 32).toNat ≠ 0) :
    ∃ loaded, Stage2.diskReadSectorRequest sectorsPerTrack numHeads drive lba segment offset regs =
        some loaded ∧
      loaded.ecx.low =
        (((lba / sectorsPerTrack.setWidth 32 / numHeads.setWidth 32) >>> 2).setWidth 8 &&& 0xC0) |||
          ((lba % sectorsPerTrack.setWidth 32 + 1).setWidth 8 &&& (0x3F : Byte)) ∧
      loaded.ecx.high = (lba / sectorsPerTrack.setWidth 32 / numHeads.setWidth 32).setWidth 8 ∧
      loaded.edx.high = (lba / sectorsPerTrack.setWidth 32 % numHeads.setWidth 32).setWidth 8 ∧
      loaded.edx.low = drive ∧ loaded.es = segment ∧ loaded.ebx.half = offset ∧ loaded.esi.half = 3 := by
  unfold Stage2.diskReadSectorRequest
  simp only [Stage2.lbaToChs_eq _ hsectors hheads, Register.word_ofWord, Option.bind_eq_bind,
    Option.bind_some]
  exact ⟨_, rfl, rfl, rfl, rfl, rfl, Register.half_setHalf _ _, Register.half_setHalf _ _,
    Register.half_setHalf _ _⟩

theorem Stage1.lbaToChs_eq {sectorsPerTrack headsPerCylinder : BitVec 16} (regs : Registers)
    (hsectors : sectorsPerTrack.toNat ≠ 0) (hheads : headsPerCylinder.toNat ≠ 0) :
    ∃ after, Stage1.lbaToChs sectorsPerTrack headsPerCylinder regs = some after ∧
      after.ecx.low = (((regs.eax.half % sectorsPerTrack).setWidth 8 + 1) &&& (0x3F : Byte)) |||
        (((regs.eax.half / sectorsPerTrack / headsPerCylinder) >>> 8).setWidth 8) <<< 6 ∧
      after.ecx.high = (regs.eax.half / sectorsPerTrack / headsPerCylinder).setWidth 8 ∧
      after.edx.high = (regs.eax.half / sectorsPerTrack % headsPerCylinder).setWidth 8 := by
  unfold Stage1.lbaToChs
  simp only [Registers.div16, Register.half_setHalf, divide_zero _ hsectors, divide_zero _ hheads,
    Option.bind_eq_bind, Option.bind_some]
  exact ⟨_, rfl, rfl, rfl, rfl⟩

/-! ## The digits -/

section Digits

variable (geometry : Geometry) {lba : ℕ}

theorem Geometry.sector_lt (lba : ℕ) : lba % geometry.sectorsPerTrack.toNat + 1 < 64 := by
  have hmod := Nat.mod_lt lba geometry.sectors_pos
  have hsectors := geometry.sectors_le
  omega

theorem Geometry.head_lt (lba : ℕ) :
    lba / geometry.sectorsPerTrack.toNat % geometry.numHeads.toNat < 256 :=
  (Nat.mod_lt _ geometry.heads_pos).trans_le geometry.heads_le

/-- The cylinder needs ten bits. -/
theorem Geometry.cylinder_lt
    (h : lba < 1024 * geometry.sectorsPerTrack.toNat * geometry.numHeads.toNat) :
    lba / geometry.sectorsPerTrack.toNat / geometry.numHeads.toNat < 1024 := by
  rw [Nat.div_div_eq_div_mul]
  apply Nat.div_lt_of_lt_mul
  rwa [Nat.mul_comm, ← Nat.mul_assoc]

end Digits

/-- The request holds the address of the block, as far as the ten bits of a cylinder reach. -/
theorem Stage2.request_chs (geometry : Geometry) (drive : Byte) (lba : Word)
    (segment offset : BitVec 16) (regs : Registers) :
    ∃ loaded, Stage2.diskReadSectorRequest geometry.sectorsPerTrack geometry.numHeads drive lba
        segment offset regs = some loaded ∧
      loaded.chs = chsOf geometry.sectorsPerTrack.toNat geometry.numHeads.toNat
        (lba.toNat % (1024 * geometry.sectorsPerTrack.toNat * geometry.numHeads.toNat)) ∧
      loaded.edx.low = drive ∧ loaded.es = segment ∧ loaded.ebx.half = offset ∧ loaded.esi.half = 3 := by
  have hwiden (value : BitVec 16) : (value.setWidth 32).toNat = value.toNat :=
    BitVec.toNat_setWidth_of_le (by decide)
  have hsectors : (geometry.sectorsPerTrack.setWidth 32).toNat ≠ 0 := by
    rw [hwiden]
    exact Nat.pos_iff_ne_zero.mp geometry.sectors_pos
  have hheads : (geometry.numHeads.setWidth 32).toNat ≠ 0 := by
    rw [hwiden]
    exact Nat.pos_iff_ne_zero.mp geometry.heads_pos
  obtain ⟨loaded, hrequest, hlow, hhigh, hhead, hrest⟩ :=
    Stage2.request_eq drive lba segment offset regs hsectors hheads
  let sector : Word := lba % geometry.sectorsPerTrack.setWidth 32 + 1
  let cylinder : Word := lba / geometry.sectorsPerTrack.setWidth 32 / geometry.numHeads.setWidth 32
  let reached := lba.toNat % (1024 * geometry.sectorsPerTrack.toNat * geometry.numHeads.toNat)
  have hsectorlt := geometry.sector_lt lba.toNat
  have hsector : sector.toNat = lba.toNat % geometry.sectorsPerTrack.toNat + 1 := by
    rw [BitVec.toNat_add, BitVec.toNat_umod, hwiden]
    exact Nat.mod_eq_of_lt (hsectorlt.trans (by decide))
  have hcylinder : cylinder.toNat =
      lba.toNat / geometry.sectorsPerTrack.toNat / geometry.numHeads.toNat := by
    rw [BitVec.toNat_udiv, BitVec.toNat_udiv, hwiden, hwiden]
  have hpacked : loaded.ecx.low = (sector.setWidth 8 &&& (0x3F : Byte)) |||
      ((cylinder >>> 2).setWidth 8 >>> 6) <<< 6 := by
    rw [hlow, and_cylinderMask, BitVec.or_comm]
  -- The digits of the address within the reach are those of the address, but for the cylinder's high bits.
  have hdigits := chsOf_mod geometry.sectorsPerTrack.toNat geometry.numHeads.toNat lba.toNat
  have hsectorOf : reached % geometry.sectorsPerTrack.toNat + 1 =
      lba.toNat % geometry.sectorsPerTrack.toNat + 1 := congrArg Chs.sector hdigits
  have hheadOf : reached / geometry.sectorsPerTrack.toNat % geometry.numHeads.toNat =
      lba.toNat / geometry.sectorsPerTrack.toNat % geometry.numHeads.toNat := congrArg Chs.head hdigits
  have hcylinderOf : reached / geometry.sectorsPerTrack.toNat / geometry.numHeads.toNat =
      lba.toNat / geometry.sectorsPerTrack.toNat / geometry.numHeads.toNat % 1024 :=
    congrArg Chs.cylinder hdigits
  refine ⟨loaded, hrequest, Registers.chs_of_packed hpacked ?_ ?_ ?_ ?_ ?_ ?_, hrest⟩
  · rw [BitVec.toNat_setWidth, hsector, hsectorOf]
    exact Nat.mod_eq_of_lt (hsectorlt.trans (by decide))
  · rw [hsectorOf]
    exact hsectorlt
  · rw [toNat_cylinderBits, BitVec.toNat_setWidth, BitVec.toNat_ushiftRight, hcylinder, hcylinderOf,
      Nat.shiftRight_eq_div_pow]
    omega
  · rw [hcylinderOf]
    exact Nat.mod_lt _ (by decide)
  · rw [hhigh, BitVec.toNat_setWidth, hcylinderOf]
    change cylinder.toNat % 256 = _
    rw [hcylinder]
    omega
  · rw [hhead, BitVec.toNat_setWidth, BitVec.toNat_umod, BitVec.toNat_udiv, hwiden, hwiden, hheadOf]
    exact Nat.mod_eq_of_lt (geometry.head_lt lba.toNat)

theorem Stage1.lbaToChs_chs (geometry : Geometry) {lba : ℕ} (regs : Registers)
    (hlba : lba < 1024 * geometry.sectorsPerTrack.toNat * geometry.numHeads.toNat)
    (hax : regs.eax.half.toNat = lba) :
    ∃ converted, Stage1.lbaToChs geometry.sectorsPerTrack geometry.numHeads regs = some converted ∧
      converted.chs = chsOf geometry.sectorsPerTrack.toNat geometry.numHeads.toNat lba := by
  obtain ⟨converted, hconvert, hlow, hhigh, hhead⟩ := Stage1.lbaToChs_eq regs
    (Nat.pos_iff_ne_zero.mp geometry.sectors_pos) (Nat.pos_iff_ne_zero.mp geometry.heads_pos)
  have hsectorlt := geometry.sector_lt lba
  have hcylinderlt := geometry.cylinder_lt hlba
  have hcylinder : (regs.eax.half / geometry.sectorsPerTrack / geometry.numHeads).toNat =
      lba / geometry.sectorsPerTrack.toNat / geometry.numHeads.toNat := by
    rw [BitVec.toNat_udiv, BitVec.toNat_udiv, hax]
  refine ⟨converted, hconvert, Registers.chs_of_packed hlow ?_ hsectorlt ?_ hcylinderlt ?_ ?_⟩
  · rw [BitVec.toNat_add, BitVec.toNat_setWidth, BitVec.toNat_umod, hax]
    change (lba % geometry.sectorsPerTrack.toNat % 256 + 1) % 256 = _
    omega
  · rw [BitVec.toNat_setWidth, BitVec.toNat_ushiftRight, hcylinder, Nat.shiftRight_eq_div_pow]
    omega
  · rw [hhigh, BitVec.toNat_setWidth, hcylinder]
  · rw [hhead, BitVec.toNat_setWidth, BitVec.toNat_umod, BitVec.toNat_udiv, hax]
    exact Nat.mod_eq_of_lt (geometry.head_lt lba)

/-- **The address in the registers.** At its `INT 13h` stage 2 has the given block address in `CH`,
`CL` and `DH`, with a sector of the track and a head of the drive. Below `65536` stage 1 computes the
same three bytes from the same geometry. -/
theorem registers_address_block (geometry : Geometry) {lba : Word} (drive : Byte)
    (segment offset : BitVec 16) (regs : Registers)
    (hlba : lba.toNat < 1024 * geometry.sectorsPerTrack.toNat * geometry.numHeads.toNat) :
    ∃ loaded, Stage2.diskReadSectorRequest geometry.sectorsPerTrack geometry.numHeads drive lba
        segment offset regs = some loaded ∧
      (loaded.chs.cylinder * geometry.numHeads.toNat + loaded.chs.head) *
        geometry.sectorsPerTrack.toNat + loaded.chs.sector - 1 = lba.toNat ∧
      1 ≤ loaded.chs.sector ∧ loaded.chs.sector ≤ geometry.sectorsPerTrack.toNat ∧
      loaded.chs.head < geometry.numHeads.toNat ∧
      (lba.toNat < 65536 → ∀ before : Registers, before.eax.half = lba.setWidth 16 →
        ∃ converted, Stage1.lbaToChs geometry.sectorsPerTrack geometry.numHeads before =
            some converted ∧
          converted.ecx.high = loaded.ecx.high ∧ converted.ecx.low = loaded.ecx.low ∧
          converted.edx.high = loaded.edx.high) := by
  obtain ⟨loaded, hrequest, hchs, -⟩ := Stage2.request_chs geometry drive lba segment offset regs
  rw [Nat.mod_eq_of_lt hlba] at hchs
  refine ⟨loaded, hrequest, ?_, ?_, ?_, ?_, fun hsmall before hax ↦ ?_⟩
  · rw [hchs]
    exact chsOf_lba _ _ _
  · rw [hchs]
    exact Nat.le_add_left 1 _
  · rw [hchs]
    exact Nat.mod_lt _ geometry.sectors_pos
  · rw [hchs]
    exact Nat.mod_lt _ geometry.heads_pos
  · have hsame : before.eax.half.toNat = lba.toNat := by
      rw [hax, BitVec.toNat_setWidth]
      exact Nat.mod_eq_of_lt hsmall
    obtain ⟨converted, hconvert, hconverted⟩ := Stage1.lbaToChs_chs geometry before hlba hsame
    exact ⟨converted, hconvert, Registers.chs_inj (hconverted.trans hchs.symm)⟩

/-- The floppy disk of the boot image. -/
def floppy : Geometry := ⟨18, 2, by decide, by decide, by decide, by decide⟩

/-- Stage 2 itself lies at block 2864 of the floppy disk, and both stages address it alike. -/
theorem registers_address_block_stage2 :
    (2864 : Word).toNat < 1024 * floppy.sectorsPerTrack.toNat * floppy.numHeads.toNat ∧
    ∀ regs : Registers, regs.eax.half = 2864 →
      ∃ loaded converted,
        Stage2.diskReadSectorRequest 18 2 0 2864 0x0500 0 regs = some loaded ∧
        Stage1.lbaToChs 18 2 regs = some converted ∧
        (loaded.chs.cylinder * 2 + loaded.chs.head) * 18 + loaded.chs.sector - 1 = 2864 ∧
        converted.ecx.low = loaded.ecx.low := by
  refine ⟨by decide, fun regs hax ↦ ?_⟩
  obtain ⟨loaded, hrequest, hblock, -, -, -, hstage1⟩ :=
    registers_address_block floppy 0 0x0500 0 regs (by decide : (2864 : Word).toNat < _)
  obtain ⟨converted, hconvert, -, hlow, -⟩ := hstage1 (by decide) regs hax
  exact ⟨loaded, converted, hrequest, hconvert, hblock, hlow⟩

end Disk

end NeilOS
