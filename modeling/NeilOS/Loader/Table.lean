import Mathlib.Tactic.IntervalCases
import NeilOS.Loader.Fat

/-!
# Packed tables

The layout of a FAT12 table, written down as the bytes of a list of entries. `fat12_next_cluster`
reads an entry back from any table of this layout, wherever it lies in memory, and touches no byte
outside of it.
-/

namespace NeilOS.Loader

open Foundation Program

/-- The bytes of a table: two entries are the low and the high half of three little-endian bytes, and
a last single entry is padded to two bytes. -/
def pack : List (BitVec 12) → List Byte
  | [] => []
  | [entry] => [.ofNat 8 entry.toNat, .ofNat 8 (entry.toNat / 256)]
  | even :: odd :: table =>
    let pair := even.toNat + 4096 * odd.toNat
    .ofNat 8 pair :: .ofNat 8 (pair / 256) :: .ofNat 8 (pair / 65536) :: pack table

/-- Both bytes of an entry are in the table. -/
theorem entry_inside {table : List (BitVec 12)} {number : ℕ} (h : number < table.length) :
    number + number / 2 + 1 < (pack table).length := by
  induction table using pack.induct generalizing number with
  | case1 => exact absurd h (Nat.not_lt_zero number)
  | case2 entry =>
    rw [List.length_singleton] at h
    change number + number / 2 + 1 < 2
    omega
  | case3 even odd table ih =>
    have hlength : (pack (even :: odd :: table)).length = (pack table).length + 3 := rfl
    rw [List.length_cons, List.length_cons] at h
    rw [hlength]
    by_cases hfirst : number < 2
    · omega
    · have hrest : number - 2 < table.length := by omega
      have hinside := ih hrest
      omega

/-- Reading an entry of a packed table gives the entry. -/
theorem tableEntry_pack {table : List (BitVec 12)} {number : ℕ} (h : number < table.length) :
    tableEntry (fun index ↦ (pack table).getD index 0) number = table[number].toNat := by
  induction table using pack.induct generalizing number with
  | case1 => exact absurd h (Nat.not_lt_zero number)
  | case2 entry =>
    obtain rfl : number = 0 := Nat.lt_one_iff.mp h
    have hentry := entry.isLt
    change ((BitVec.ofNat 8 entry.toNat).toNat + 256 * (BitVec.ofNat 8 (entry.toNat / 256)).toNat) /
      1 % 4096 = entry.toNat
    rw [BitVec.toNat_ofNat, BitVec.toNat_ofNat]
    omega
  | case3 even odd table ih =>
    have heven := even.isLt
    have hodd := odd.isLt
    match number with
    | 0 =>
      change ((BitVec.ofNat 8 (even.toNat + 4096 * odd.toNat)).toNat +
        256 * (BitVec.ofNat 8 ((even.toNat + 4096 * odd.toNat) / 256)).toNat) / 1 % 4096 = even.toNat
      rw [BitVec.toNat_ofNat, BitVec.toNat_ofNat]
      omega
    | 1 =>
      change ((BitVec.ofNat 8 ((even.toNat + 4096 * odd.toNat) / 256)).toNat +
        256 * (BitVec.ofNat 8 ((even.toNat + 4096 * odd.toNat) / 65536)).toNat) / 16 % 4096 = odd.toNat
      rw [BitVec.toNat_ofNat, BitVec.toNat_ofNat]
      omega
    | number + 2 =>
      have hrest : number < table.length := by
        simpa using h
      have hposition : number + 2 + (number + 2) / 2 = number + number / 2 + 3 := by omega
      have hparity : (number + 2) % 2 = number % 2 := Nat.add_mod_right number 2
      rw [List.getElem_cons_succ, List.getElem_cons_succ, ← ih hrest, tableEntry, tableEntry,
        hposition, hparity]
      rfl

/-! ## Reading an entry -/

/-- The bytes of a table lie at a pointer. -/
def PackedAt (ds : BitVec 16) (fat : Word) (table : List (BitVec 12)) (memory : Memory) : Prop :=
  ∀ index < (pack table).length,
    memory (linearAddress ds 0 + (fat + .ofNat 32 index)) = (pack table).getD index 0

theorem fatPointer_eq (fat : Word) {cluster : BitVec 16} (hcluster : cluster.toNat < 4096) :
    fat + (cluster + cluster / 2).setWidth 32 = fat + .ofNat 32 (cluster.toNat + cluster.toNat / 2) ∧
      fat + (cluster + cluster / 2).setWidth 32 + 1 =
        fat + .ofNat 32 (cluster.toNat + cluster.toNat / 2 + 1) := by
  have hwidened : (cluster + cluster / 2).setWidth 32 =
      BitVec.ofNat 32 (cluster.toNat + cluster.toNat / 2) := by
    rw [← fatOffset_eq hcluster, BitVec.ofNat_toNat]
  rw [hwidened, BitVec.ofNat_add (cluster.toNat + cluster.toNat / 2), BitVec.add_assoc]
  exact ⟨rfl, rfl⟩

/-- An entry of a packed table is read back with two loads. -/
theorem fat12NextCluster_packed (drive : Drive) {ds : BitVec 16} {fat : Word}
    {table : List (BitVec 12)} {machine : Machine} (htable : PackedAt ds fat table machine.memory)
    {cluster : BitVec 16} (hcluster : cluster.toNat < table.length) (hlength : table.length ≤ 4087) :
    Performs (handle drive ds) (fat12NextCluster fat cluster) machine
      [.load (fat + .ofNat 32 (cluster.toNat + cluster.toNat / 2)),
        .load (fat + .ofNat 32 (cluster.toNat + cluster.toNat / 2 + 1))]
      (table[cluster.toNat].setWidth 16) machine := by
  have hsmall : cluster.toNat < 4096 := by omega
  have hinside := entry_inside hcluster
  obtain ⟨hlow, hhigh⟩ := fatPointer_eq fat hsmall
  obtain ⟨next, hperforms, hnext⟩ := fat12NextCluster_performs drive ds fat cluster machine
    (hlow ▸ htable _ (by omega)) (hhigh ▸ htable _ hinside)
  have hentry : next = table[cluster.toNat].setWidth 16 := by
    apply BitVec.eq_of_toNat_eq
    rw [hnext, BitVec.toNat_setWidth_of_le (by decide)]
    exact tableEntry_pack hcluster
  rwa [hhigh, hlow, hentry] at hperforms

/-- **Entries of a packed table.** `fat12_next_cluster` returns entry `number` of a table of at most
4087 entries. Its 16-bit offset does not wrap, its two loads stay inside of the table, and no other
entry has an influence on the result. -/
theorem next_cluster_of_packed (drive : Drive) (ds : BitVec 16) (fat : Word)
    {table : List (BitVec 12)} (hlength : table.length ≤ 4087) {number : ℕ}
    (hnumber : number < table.length) :
    (BitVec.ofNat 16 number + BitVec.ofNat 16 number / 2).toNat = number + number / 2 ∧
    number + number / 2 + 1 < (pack table).length ∧
    (∀ machine : Machine, PackedAt ds fat table machine.memory →
      Performs (handle drive ds) (fat12NextCluster fat (.ofNat 16 number)) machine
        [.load (fat + .ofNat 32 (number + number / 2)),
          .load (fat + .ofNat 32 (number + number / 2 + 1))]
        (table[number].setWidth 16) machine) ∧
    ∀ other ≠ number, ∀ (entry : BitVec 12) (machine : Machine),
      PackedAt ds fat (table.set other entry) machine.memory →
      exec (handle drive ds) (fat12NextCluster fat (.ofNat 16 number)) machine =
        some (table[number].setWidth 16, machine) := by
  have hcluster : (BitVec.ofNat 16 number).toNat = number := by
    rw [BitVec.toNat_ofNat]
    exact Nat.mod_eq_of_lt (by omega)
  refine ⟨?_, entry_inside hnumber, fun machine htable ↦ ?_, fun other hother entry machine htable ↦ ?_⟩
  · have hoffset := @fatOffset_eq (.ofNat 16 number) (by omega)
    rwa [hcluster] at hoffset
  · have hread := fat12NextCluster_packed drive htable (by rwa [hcluster]) hlength
    simpa only [hcluster] using hread
  · have hset : number < (table.set other entry).length := by rwa [List.length_set]
    have hsetlength : (table.set other entry).length ≤ 4087 := by rwa [List.length_set]
    have hread := (fat12NextCluster_packed drive htable (by rwa [hcluster]) hsetlength).exec_eq
    simpa only [hcluster, List.getElem_set_ne hother] using hread

/-- Entry 1 of a table of three entries, which shares its bytes with entry 0. -/
theorem next_cluster_of_packed_three :
    ∃ machine : Machine, PackedAt 0 0 [0xABC, 0x123, 0xFFF] machine.memory ∧
      ∀ drive, exec (handle drive 0) (fat12NextCluster 0 1) machine = some (0x123, machine) := by
  let machine : Machine := ⟨fun address ↦ (pack [0xABC, 0x123, 0xFFF]).getD address.toNat 0, 0⟩
  have htable : PackedAt 0 0 [0xABC, 0x123, 0xFFF] machine.memory := by
    intro index hindex
    have hlast : index < 5 := hindex
    interval_cases index <;> rfl
  refine ⟨machine, htable, fun drive ↦ ?_⟩
  have hlength : [(0xABC : BitVec 12), 0x123, 0xFFF].length ≤ 4087 := by decide
  obtain ⟨-, -, hread, -⟩ := next_cluster_of_packed drive 0 0 hlength (by decide : 1 < _)
  exact (hread machine htable).exec_eq

end NeilOS.Loader
