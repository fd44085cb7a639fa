import NeilOS.Foundation.Run
import NeilOS.Kmalloc.Blocks

/-!
# Runs of the kernel heap with its clients

A run starts with `kmalloc_init` on arbitrary memory. Clients then call `kmalloc` with any size,
call `kfree` on `NULL` or on a live pointer, and store bytes into the payload recorded for a live
pointer. The state keeps two histories beside the machine's own: the live pointers, and for each
byte the value a client last stored there since the byte was last allocated.

`Invariant` names the tiling behind the headers. It is kept by every step, and both the shape of
the block list and the separation of payloads from headers are read off it.
-/

namespace NeilOS.Kmalloc

open Foundation MemoryOp Program

/-! ## The list the headers encode -/

structure Block where
  address : Word
  size : Word
  free : Bool
  next : Word
deriving DecidableEq

def blockAt (memory : Memory) (address : Word) : Block where
  address := address
  size := memory.load32 address
  free := memory (address + 4) != 0
  next := memory.load32 (address + 8)

/-- The blocks reachable from a pointer; `none` when the walk exceeds its bound. -/
def blockList (memory : Memory) : ℕ → Word → Option (List Block)
  | 0, _ => none
  | fuel + 1, ptr =>
      if ptr = 0 then some []
      else (blockList memory fuel (blockAt memory ptr).next).map (blockAt memory ptr :: ·)

/-- The bytes recorded in the header in front of `ptr` as its payload. -/
def Payload (memory : Memory) (ptr target : Word) : Prop :=
  ptr.toNat ≤ target.toNat ∧ target.toNat < ptr.toNat + (memory.load32 (ptr - headerSize)).toNat

instance (memory : Memory) (ptr target : Word) : Decidable (Payload memory ptr target) :=
  inferInstanceAs (Decidable (_ ∧ _))

/-- The block list covers the heap exactly, and its non-free blocks are those of `live`. -/
structure TilesHeap (blocks : List Block) (live : List Word) : Prop where
  starts : blocks.head?.map Block.address = some heap
  linked : blocks.IsChain fun block next ↦ block.next = next.address ∧
    next.address.toNat = block.address.toNat + headerSize.toNat + block.size.toNat
  ends : ∀ last ∈ blocks.getLast?, last.next = 0 ∧
    last.address.toNat + headerSize.toNat + last.size.toNat = heap.toNat + heapSize.toNat
  granular : ∀ block ∈ blocks, 8 ∣ block.size.toNat
  separated : blocks.IsChain fun block next ↦ ¬ (block.free = true ∧ next.free = true)
  live_nodup : live.Nodup
  live_iff : ∀ ptr, ptr ∈ live ↔ ∃ block ∈ blocks, block.free = false ∧
    ptr = block.address + headerSize

/-! ## The client system -/

structure Client where
  memory : Memory
  head : Word
  live : List Word
  /-- The value last stored by a client since the byte was last handed out. -/
  stored : Word → Option Byte

inductive Event where
  | kmalloc (size result : Word)
  | kfree (ptr : Word)
  | store (address : Word) (value : Byte)

inductive Initial : Client → Prop where
  | init {memory after : Memory} {head : Word} :
      exec handle kmallocInit memory = some (head, after) →
        Initial ⟨after, head, [], fun _ ↦ none⟩

/-- The client's view after `kmalloc` returned: a fresh payload has not been stored to. -/
def Client.allocated (client : Client) (result : Word) (after : Memory) : Client :=
  if result = 0 then { client with memory := after }
  else
    { client with
      memory := after
      live := result :: client.live
      stored := fun target ↦ if Payload after result target then none else client.stored target }

inductive Step : Client → Event → Client → Prop where
  | kmalloc {client : Client} {size result : Word} {after : Memory} :
      exec handle (Kmalloc.kmalloc client.head size) client.memory = some (result, after) →
        Step client (.kmalloc size result) (client.allocated result after)
  | kfree {client : Client} {ptr : Word} {after : Memory} : ptr = 0 ∨ ptr ∈ client.live →
      exec handle (Kmalloc.kfree client.head ptr) client.memory = some ((), after) →
        Step client (.kfree ptr) { client with memory := after, live := client.live.erase ptr }
  | store {client : Client} {ptr address : Word} {value : Byte} : ptr ∈ client.live →
      Payload client.memory ptr address →
        Step client (.store address value)
          { client with
            memory := client.memory.store8 address value
            stored := Function.update client.stored address (some value) }

/-! ## The tiling behind the headers -/

structure Invariant (client : Client) (cells : List Cell) : Prop where
  head : client.head = heap
  represents : Represents client.memory 0x100000 cells
  extent : Cells.extent 16 cells = 0x100000
  granular : Cells.Granular 8 cells
  separated : Cells.Separated cells
  live_nodup : client.live.Nodup
  live_iff : ∀ ptr, ptr ∈ client.live ↔
    ∃ entry ∈ Cells.inUse 16 0x100000 cells, ptr = .ofNat 32 (entry.1 + 16)
  stored : ∀ ptr ∈ client.live, ∀ target, Payload client.memory ptr target →
    ∀ value, client.stored target = some value → client.memory target = value

theorem heap_eq : heap = BitVec.ofNat 32 0x100000 := rfl

theorem Represents.header {memory : Memory} {base position : ℕ} {cell : Cell} {cells : List Cell}
    (h : Represents memory base cells) (hplaced : (position, cell) ∈ Cells.placed 16 base cells) :
    ∃ next, HeaderAt memory position cell next := by
  induction cells generalizing base with
  | nil => simp [Cells.placed] at hplaced
  | cons first rest ih =>
    simp only [Cells.placed, List.mem_cons, Prod.mk.injEq] at hplaced
    rcases hplaced with ⟨rfl, rfl⟩ | hplaced
    · exact ⟨_, h.1⟩
    · exact ih h.2 hplaced

theorem Represents.recorded_size {memory : Memory} {base position : ℕ} {cell : Cell}
    {cells : List Cell} (h : Represents memory base cells)
    (hplaced : (position, cell) ∈ Cells.placed 16 base cells) :
    memory.load32 (.ofNat 32 (position + 16) - headerSize) = .ofNat 32 cell.size := by
  obtain ⟨next, hheader⟩ := h.header hplaced
  have hblock : BitVec.ofNat 32 (position + 16) - headerSize = BitVec.ofNat 32 position := by
    rw [headerSize_eq, BitVec.ofNat_add, BitVec.add_sub_cancel]
  rw [hblock, hheader.size]

/-- The payload recorded for a placed cell is the room behind its header. -/
theorem payload_iff {memory : Memory} {base position : ℕ} {cell : Cell} {cells : List Cell}
    {target : Word} (h : Represents memory base cells)
    (hbound : base + Cells.extent 16 cells ≤ 2 ^ 31)
    (hplaced : (position, cell) ∈ Cells.placed 16 base cells) :
    Payload memory (.ofNat 32 (position + 16)) target ↔
      position + 16 ≤ target.toNat ∧ target.toNat < position + 16 + cell.size := by
  have hbounds := Cells.placed_bounds hplaced
  unfold Payload
  rw [h.recorded_size hplaced, Word.toNat_ofNat_of_lt (by omega), Word.toNat_ofNat_of_lt (by omega)]

/-- The payload of a cell in use does not meet the free cells. -/
theorem not_freeSpan_of_inUse {base position : ℕ} {cell : Cell} {cells : List Cell} {target : Word}
    (h : (position, cell) ∈ Cells.inUse 16 base cells) (hlow : position ≤ target.toNat)
    (hhigh : target.toNat < position + 16 + cell.size) : ¬ FreeSpan base cells target := by
  rintro ⟨other, free, hplaced, hfree, hlowFree, hhighFree⟩
  obtain ⟨hused, hinUse⟩ := Cells.mem_inUse.mp h
  rcases Cells.placed_disjoint hused hplaced with ⟨-, rfl⟩ | hbefore | hafter
  · rw [hfree] at hinUse
    exact Bool.noConfusion hinUse
  · omega
  · omega

namespace Invariant

variable {client : Client} {cells : List Cell}

theorem bound (h : Invariant client cells) : 0x100000 + Cells.extent 16 cells ≤ 2 ^ 31 := by
  rw [h.extent]
  decide

theorem length_lt (h : Invariant client cells) : cells.length < walkBound := by
  have hlength := @Cells.length_mul_le_extent 16 cells
  rw [h.extent] at hlength
  unfold walkBound
  omega

theorem cells_ne_nil (h : Invariant client cells) : cells ≠ [] := by
  rintro rfl
  have hextent := h.extent
  simp [Cells.extent] at hextent

theorem head_eq_link (h : Invariant client cells) : client.head = link 0x100000 cells := by
  rw [h.head, link, if_neg h.cells_ne_nil, heap_eq]

/-- A live pointer stands behind the header of exactly one cell in use. -/
theorem cell_of_live (h : Invariant client cells) {ptr : Word} (hlive : ptr ∈ client.live) :
    ∃ position cell, (position, cell) ∈ Cells.inUse 16 0x100000 cells ∧
      ptr = .ofNat 32 (position + 16) ∧ ∀ target, Payload client.memory ptr target ↔
        position + 16 ≤ target.toNat ∧ target.toNat < position + 16 + cell.size := by
  obtain ⟨⟨position, cell⟩, hentry, rfl⟩ := (h.live_iff ptr).mp hlive
  refine ⟨position, cell, hentry, rfl, fun target ↦ ?_⟩
  exact payload_iff h.represents h.bound (Cells.mem_inUse.mp hentry).1

/-- A cell lies in the heap, so its pointer and its recorded size are the numbers themselves. -/
theorem placed_spec (h : Invariant client cells) {position : ℕ} {cell : Cell}
    (hplaced : (position, cell) ∈ Cells.placed 16 0x100000 cells) :
    (0x100000 ≤ position ∧ position + 16 + cell.size ≤ 0x200000) ∧
      (BitVec.ofNat 32 (position + 16)).toNat = position + 16 ∧
      (client.memory.load32 (.ofNat 32 (position + 16) - headerSize)).toNat = cell.size := by
  have hbounds := Cells.placed_bounds hplaced
  rw [h.extent] at hbounds
  rw [h.represents.recorded_size hplaced]
  exact ⟨hbounds, Word.toNat_ofNat_of_lt (by omega), Word.toNat_ofNat_of_lt (by omega)⟩

/-- Positions below the end of the heap are determined by their pointers. -/
theorem position_inj (h : Invariant client cells) {first second : ℕ} {left right : Cell}
    (hfirst : (first, left) ∈ Cells.inUse 16 0x100000 cells)
    (hsecond : (second, right) ∈ Cells.inUse 16 0x100000 cells)
    (heq : BitVec.ofNat 32 (first + 16) = BitVec.ofNat 32 (second + 16)) : first = second := by
  have hleft := (h.placed_spec (Cells.mem_inUse.mp hfirst).1).2.1
  have hright := (h.placed_spec (Cells.mem_inUse.mp hsecond).1).2.1
  rw [heq, hright] at hleft
  exact (Nat.add_right_cancel hleft).symm

end Invariant

/-! ## Each step keeps the invariant -/

theorem dvd_align8 (size : Word) : 8 ∣ (align8 size).toNat := by
  have hmask := Word.toNat_and_high (size + 7) 3
  exact Dvd.intro_left _ hmask.symm

/-- What a call `kmalloc(size)` does to the tiling. -/
def allocate (size : Word) (cells : List Cell) : Option (ℕ × List Cell) :=
  if size = 0 then none else Cells.firstFit 16 24 (align8 size).toNat 0x100000 cells

theorem allocate_eq_some {size : Word} {cells next : List Cell} {position : ℕ}
    (h : allocate size cells = some (position, next)) :
    Cells.firstFit 16 24 (align8 size).toNat 0x100000 cells = some (position, next) := by
  unfold allocate at h
  split at h
  · cases h
  · exact h

theorem kmallocInit_spec (memory : Memory) :
    Meets handle (StoresWithin fun _ ↦ True) kmallocInit memory fun head after ↦
      head = heap ∧ Represents after 0x100000 [⟨0x100000 - 16, true⟩] := by
  simp only [kmallocInit, writeSize, writeFree, writeNext, meets_bind, MemoryProgram.meets_write32,
    MemoryProgram.meets_write8, meets_pure, implies_true, true_and, if_true, Represents, and_true]
  have hsize : heapSize - headerSize = BitVec.ofNat 32 (0x100000 - 16) := by decide
  have hflag : heap + 4 = BitVec.ofNat 32 (0x100000 + 4) := by decide
  have hnext : heap + 8 = BitVec.ofNat 32 (0x100000 + 8) := by decide
  rw [hsize, hflag, hnext, heap_eq]
  refine ⟨?_, ?_, ?_⟩
  · simp (disch := omega) only [Memory.load32_store32_ofNat_of_apart,
      Memory.load32_store8_ofNat_of_outside, Memory.load32_store32]
  · simp (disch := omega) only [Memory.store32_ofNat_of_outside, Memory.store8_same]
    decide
  · simp

namespace Invariant

variable {client : Client} {cells : List Cell}

theorem initial {client : Client} (h : Initial client) :
    Invariant client [⟨0x100000 - 16, true⟩] := by
  obtain ⟨hexec⟩ := h
  obtain ⟨rfl, hrep⟩ := (kmallocInit_spec _).of_exec hexec
  exact
    { head := rfl
      represents := hrep
      extent := by simp [Cells.extent]
      granular := by simp [Cells.Granular]
      separated := by simp [Cells.Separated]
      live_nodup := List.nodup_nil
      live_iff := by simp [Cells.inUse, Cells.placed]
      stored := by simp }

/-- `kmalloc` returns, is first fit on the tiling, and stores only inside free cells. -/
theorem kmalloc_spec (h : Invariant client cells) (size : Word) :
    Meets handle (StoresWithin (FreeSpan 0x100000 cells)) (Kmalloc.kmalloc client.head size)
      client.memory fun value after ↦
        match allocate size cells with
        | none => value = 0 ∧ after = client.memory
        | some (position, next) =>
            value = .ofNat 32 (position + 16) ∧ Represents after 0x100000 next := by
  unfold Kmalloc.kmalloc allocate
  split
  · simp
  · have hloop := kmallocLoop_spec h.represents h.bound (by decide) (align8 size).isLt h.length_lt
    rw [BitVec.ofNat_toNat, BitVec.setWidth_eq, ← h.head_eq_link] at hloop
    exact hloop

/-- `kfree` of a live pointer returns and stores only inside cells that are free afterwards. -/
theorem kfree_spec (h : Invariant client cells) {position : ℕ} {cell : Cell}
    (hused : (position, cell) ∈ Cells.inUse 16 0x100000 cells) :
    Meets handle (StoresWithin (FreeSpan 0x100000 (Cells.markFree 16 position 0x100000 cells)))
      (Kmalloc.kfree client.head (.ofNat 32 (position + 16))) client.memory fun _ after ↦
        Represents after 0x100000 (Cells.release 16 position 0x100000 cells) := by
  rw [h.head_eq_link]
  exact Kmalloc.kfree_spec h.represents h.bound (by decide) h.length_lt (Cells.mem_inUse.mp hused).1

/-- Live payloads meet no free cell. -/
theorem payload_not_freeSpan (h : Invariant client cells) {ptr target : Word}
    (hlive : ptr ∈ client.live) (htarget : Payload client.memory ptr target) :
    ¬ FreeSpan 0x100000 cells target := by
  obtain ⟨position, cell, hused, -, hpayload⟩ := h.cell_of_live hlive
  obtain ⟨hlow, hhigh⟩ := (hpayload target).mp htarget
  exact not_freeSpan_of_inUse hused (by omega) hhigh

/-- A payload that stays live meets no cell that is free after the release of another cell. -/
theorem payload_not_freeSpan_markFree (h : Invariant client cells) {freed : ℕ} {cell : Cell}
    (hused : (freed, cell) ∈ Cells.inUse 16 0x100000 cells) {ptr target : Word}
    (hlive : ptr ∈ client.live) (hne : ptr ≠ .ofNat 32 (freed + 16))
    (htarget : Payload client.memory ptr target) :
    ¬ FreeSpan 0x100000 (Cells.markFree 16 freed 0x100000 cells) target := by
  obtain ⟨position, other, hother, rfl, hpayload⟩ := h.cell_of_live hlive
  obtain ⟨hlow, hhigh⟩ := (hpayload target).mp htarget
  have hkept : (position, other) ∈
      Cells.inUse 16 0x100000 (Cells.markFree 16 freed 0x100000 cells) := by
    have hrelease := Cells.mem_inUse_release (by decide : 0 < 16) (Cells.mem_inUse.mp hused).1
      (position, other)
    rw [Cells.release, Cells.inUse_coalesce] at hrelease
    exact hrelease.mpr ⟨hother, by rintro rfl; exact hne rfl⟩
  exact not_freeSpan_of_inUse hkept (by omega) hhigh

/-- Payloads of cells in use in both tilings are the same bytes. -/
theorem payload_congr (h : Invariant client cells) {after : Memory} {next : List Cell}
    (hrep : Represents after 0x100000 next) (hextent : Cells.extent 16 next = 0x100000)
    {position : ℕ} {cell : Cell} (hbefore : (position, cell) ∈ Cells.inUse 16 0x100000 cells)
    (hafter : (position, cell) ∈ Cells.inUse 16 0x100000 next) (target : Word) :
    Payload after (.ofNat 32 (position + 16)) target ↔
      Payload client.memory (.ofNat 32 (position + 16)) target := by
  rw [payload_iff h.represents h.bound (Cells.mem_inUse.mp hbefore).1,
    payload_iff hrep (by rw [hextent]; decide) (Cells.mem_inUse.mp hafter).1]

/-- A call of `kmalloc` allocates in the tiling, or changes nothing. -/
theorem kmalloc_cases (h : Invariant client cells) {size result : Word} {after : Memory}
    (hexec : exec handle (Kmalloc.kmalloc client.head size) client.memory = some (result, after)) :
    (allocate size cells = none ∧ result = 0 ∧ after = client.memory) ∨
      ∃ position next, allocate size cells = some (position, next) ∧
        result = .ofNat 32 (position + 16) ∧ result ≠ 0 ∧
        Invariant (client.allocated result after) next := by
  have hresult := (MemoryProgram.frame (h.kmalloc_spec size)).of_exec hexec
  obtain ⟨hcases, hframe⟩ := hresult
  cases hfit : allocate size cells with
  | none =>
    rw [hfit] at hcases
    exact .inl ⟨rfl, hcases⟩
  | some found =>
    obtain ⟨position, next⟩ := found
    rw [hfit] at hcases
    obtain ⟨rfl, hrep⟩ := hcases
    have hfirst := allocate_eq_some hfit
    have hextent : Cells.extent 16 next = 0x100000 :=
      (Cells.extent_firstFit (by decide) hfirst).trans h.extent
    obtain ⟨cell, hplaced, hfree, -, hused⟩ := Cells.mem_inUse_firstFit (by decide) hfirst
    have hbounds := Cells.placed_bounds hplaced
    rw [h.extent] at hbounds
    have hnonzero : BitVec.ofNat 32 (position + 16) ≠ 0 := ofNat_ne_zero (by omega) (by omega)
    have hfresh : BitVec.ofNat 32 (position + 16) ∉ client.live := by
      intro hlive
      obtain ⟨other, usedCell, hother, heq, -⟩ := h.cell_of_live hlive
      have hotherBounds := (Cells.placed_bounds (Cells.mem_inUse.mp hother).1).2
      rw [h.extent] at hotherBounds
      obtain rfl : position = other := by bv_omega
      have hsame := Cells.placed_unique (by decide) hplaced (Cells.mem_inUse.mp hother).1
      rw [← hsame, Cells.mem_inUse] at hother
      rw [hother.2] at hfree
      exact Bool.noConfusion hfree
    refine .inr ⟨position, next, rfl, rfl, hnonzero, ?_⟩
    rw [Client.allocated, if_neg hnonzero]
    exact
      { head := h.head
        represents := hrep
        extent := hextent
        granular := h.granular.firstFit (by decide) (dvd_align8 size) hfirst
        separated := h.separated.firstFit hfirst
        live_nodup := List.nodup_cons.mpr ⟨hfresh, h.live_nodup⟩
        live_iff := by
          intro ptr
          simp only [List.mem_cons, h.live_iff, hused, or_and_right, exists_or, exists_eq_left]
        stored := by
          intro ptr hlive target hpayload value hstored
          simp only at hpayload hstored ⊢
          split at hstored
          · cases hstored
          rename_i hother
          rcases List.mem_cons.mp hlive with rfl | hlive
          · exact absurd hpayload hother
          obtain ⟨place, kept, hkept, rfl, -⟩ := h.cell_of_live hlive
          rw [h.payload_congr hrep hextent hkept ((hused _).mpr (.inr hkept))] at hpayload
          rw [hframe target (h.payload_not_freeSpan hlive hpayload)]
          exact h.stored _ hlive target hpayload value hstored }

theorem kmalloc (h : Invariant client cells) {size result : Word} {after : Memory}
    (hexec : exec handle (Kmalloc.kmalloc client.head size) client.memory = some (result, after)) :
    ∃ next, Invariant (client.allocated result after) next := by
  rcases h.kmalloc_cases hexec with ⟨-, rfl, rfl⟩ | ⟨position, next, -, -, -, hnext⟩
  · exact ⟨cells, by simpa [Client.allocated] using h⟩
  · exact ⟨next, hnext⟩

/-- `kfree` of a live pointer releases its cell in the tiling. -/
theorem kfree_live (h : Invariant client cells) {position : ℕ} {cell : Cell} {after : Memory}
    (hused : (position, cell) ∈ Cells.inUse 16 0x100000 cells)
    (hexec : exec handle (Kmalloc.kfree client.head (.ofNat 32 (position + 16))) client.memory =
      some ((), after)) :
    Invariant { client with memory := after, live := client.live.erase (.ofNat 32 (position + 16)) }
      (Cells.release 16 position 0x100000 cells) := by
  obtain ⟨hrep, hframe⟩ := (MemoryProgram.frame (h.kfree_spec hused)).of_exec hexec
  have hremain (entry : ℕ × Cell) := Cells.mem_inUse_release (by decide : 0 < 16)
    (Cells.mem_inUse.mp hused).1 entry
  have hextent : Cells.extent 16 (Cells.release 16 position 0x100000 cells) = 0x100000 :=
    (Cells.extent_release ..).trans h.extent
  exact
    { head := h.head
      represents := hrep
      extent := hextent
      granular := h.granular.release (by decide)
      separated := Cells.separated_coalesce _
      live_nodup := h.live_nodup.erase _
      live_iff := by
        intro other
        rw [h.live_nodup.mem_erase_iff, h.live_iff]
        constructor
        · rintro ⟨hne, entry, hentry, rfl⟩
          exact ⟨entry, (hremain entry).mpr ⟨hentry, fun heq ↦ hne (by rw [heq])⟩, rfl⟩
        · rintro ⟨entry, hentry, rfl⟩
          obtain ⟨hbefore, hne⟩ := (hremain entry).mp hentry
          exact ⟨fun heq ↦ hne (h.position_inj hbefore hused heq), entry, hbefore, rfl⟩
      stored := by
        intro other hother target hpayload value hstored
        obtain ⟨hne, hkept⟩ := h.live_nodup.mem_erase_iff.mp hother
        obtain ⟨place, kept, hplace, rfl, -⟩ := h.cell_of_live hkept
        have hstays := (hremain (place, kept)).mpr ⟨hplace, fun heq ↦ hne (by rw [← heq])⟩
        rw [h.payload_congr hrep hextent hplace hstays] at hpayload
        change after target = value
        rw [hframe target (h.payload_not_freeSpan_markFree hused hkept hne hpayload)]
        exact h.stored _ hkept target hpayload value hstored }

theorem kfree (h : Invariant client cells) {ptr : Word} {after : Memory}
    (hptr : ptr = 0 ∨ ptr ∈ client.live)
    (hexec : exec handle (Kmalloc.kfree client.head ptr) client.memory = some ((), after)) :
    ∃ next, Invariant { client with memory := after, live := client.live.erase ptr } next := by
  by_cases hnull : ptr = 0
  · subst hnull
    have hsame : client.memory = after := by simpa [Kmalloc.kfree, exec, pure] using hexec
    have habsent : 0 ∉ client.live := by
      intro hlive
      obtain ⟨position, cell, hused, heq, -⟩ := h.cell_of_live hlive
      have hbounds := Cells.placed_bounds (Cells.mem_inUse.mp hused).1
      rw [h.extent] at hbounds
      exact ofNat_ne_zero (by omega) (by omega) heq.symm
    refine ⟨cells, ?_⟩
    rw [← hsame, List.erase_of_not_mem habsent]
    exact h
  · obtain ⟨position, cell, hused, rfl, -⟩ := h.cell_of_live (hptr.resolve_left hnull)
    exact ⟨_, h.kfree_live hused hexec⟩

/-- A store into a live payload misses every header. -/
theorem represents_store (h : Invariant client cells) {ptr address : Word} (value : Byte)
    (hlive : ptr ∈ client.live) (hpayload : Payload client.memory ptr address) :
    Represents (client.memory.store8 address value) 0x100000 cells := by
  obtain ⟨position, cell, hused, rfl, hiff⟩ := h.cell_of_live hlive
  obtain ⟨hlow, hhigh⟩ := (hiff address).mp hpayload
  apply h.represents.frame (by have := h.bound; omega)
  intro place other hplaced target htargetLow htargetHigh
  apply Memory.store8_of_ne
  rintro rfl
  rcases Cells.placed_disjoint hplaced (Cells.mem_inUse.mp hused).1 with ⟨rfl, -⟩ | hbefore | hafter
  all_goals omega

theorem store (h : Invariant client cells) {ptr address : Word} {value : Byte}
    (hlive : ptr ∈ client.live) (hpayload : Payload client.memory ptr address) :
    Invariant
      { client with
        memory := client.memory.store8 address value
        stored := Function.update client.stored address (some value) } cells := by
  have hrep := h.represents_store value hlive hpayload
  exact
    { h with
      represents := hrep
      stored := by
        intro other hother target htarget written hwritten
        obtain ⟨place, kept, hplace, rfl, -⟩ := h.cell_of_live hother
        rw [h.payload_congr hrep h.extent hplace hplace] at htarget
        simp only at hwritten ⊢
        by_cases hsame : target = address
        · subst hsame
          rw [Function.update_self] at hwritten
          rw [Memory.store8_same, Option.some.inj hwritten]
        · rw [Function.update_of_ne hsame] at hwritten
          rw [Memory.store8_of_ne hsame]
          exact h.stored _ hother target htarget written hwritten }

theorem step {before after : Client} {event : Event} (h : Invariant before cells)
    (hstep : Step before event after) : ∃ next, Invariant after next := by
  cases hstep with
  | kmalloc hexec => exact h.kmalloc hexec
  | kfree hptr hexec => exact h.kfree hptr hexec
  | store hlive hpayload => exact ⟨cells, h.store hlive hpayload⟩

end Invariant

theorem exists_invariant {client : Client} (h : Reachable Initial Step client) :
    ∃ cells, Invariant client cells := by
  apply h.invariant (fun client ↦ ∃ cells, Invariant client cells)
  · exact fun _ hinitial ↦ ⟨_, .initial hinitial⟩
  · rintro before event after ⟨cells, hbefore⟩ hstep
    exact hbefore.step hstep

/-! ## The block list read from memory -/

/-- The blocks that a tiling puts into memory. -/
def layout : ℕ → List Cell → List Block
  | _, [] => []
  | base, cell :: rest =>
      ⟨.ofNat 32 base, .ofNat 32 cell.size, cell.free, link (Cells.after 16 base cell) rest⟩ ::
        layout (Cells.after 16 base cell) rest

theorem blockAt_of_header {memory : Memory} {base : ℕ} {cell : Cell} {next : Word}
    (h : HeaderAt memory base cell next) :
    blockAt memory (.ofNat 32 base) = ⟨.ofNat 32 base, .ofNat 32 cell.size, cell.free, next⟩ := by
  have hflag : BitVec.ofNat 32 base + 4 = BitVec.ofNat 32 (base + 4) := by simp [BitVec.ofNat_add]
  have hlink : BitVec.ofNat 32 base + 8 = BitVec.ofNat 32 (base + 8) := by simp [BitVec.ofNat_add]
  rw [blockAt, hflag, hlink, h.size, h.next, BitVec.ofNat_eq_ofNat, h.free]

theorem blockList_eq_layout {memory : Memory} {base fuel : ℕ} {cells : List Cell}
    (hrep : Represents memory base cells) (hbound : base + Cells.extent 16 cells ≤ 2 ^ 31)
    (hpositive : 0 < base) (hfuel : cells.length < fuel) :
    blockList memory fuel (link base cells) = some (layout base cells) := by
  induction cells generalizing base fuel with
  | nil =>
    cases fuel with
    | zero => omega
    | succ fuel => simp [blockList, layout]
  | cons cell rest ih =>
    have hroom : base + (16 + cell.size + Cells.extent 16 rest) ≤ 2 ^ 31 := hbound
    cases fuel with
    | zero => omega
    | succ fuel =>
      have htail := ih hrep.2 (by simp only [Cells.after]; omega) (by simp only [Cells.after]; omega)
        (by simpa using hfuel)
      have hnonzero : BitVec.ofNat 32 base ≠ 0 := ofNat_ne_zero hpositive (by omega)
      rw [blockList, link_cons, if_neg hnonzero, blockAt_of_header hrep.1, htail]
      rfl

theorem layout_map_free (base : ℕ) (cells : List Cell) :
    (layout base cells).map Block.free = cells.map Cell.free := by
  induction cells generalizing base with
  | nil => rfl
  | cons cell rest ih => simp [layout, ih]

theorem layout_map_placed (base : ℕ) (cells : List Cell) :
    (layout base cells).map (fun block ↦ (block.address, block.size, block.free)) =
      (Cells.placed 16 base cells).map fun entry ↦
        (BitVec.ofNat 32 entry.1, BitVec.ofNat 32 entry.2.size, entry.2.free) := by
  induction cells generalizing base with
  | nil => rfl
  | cons cell rest ih => simp [layout, Cells.placed, ih]

theorem exists_placed_of_mem_layout {base : ℕ} {cells : List Cell} {block : Block}
    (h : block ∈ layout base cells) :
    ∃ position cell, (position, cell) ∈ Cells.placed 16 base cells ∧
      block.address = .ofNat 32 position ∧ block.size = .ofNat 32 cell.size ∧
        block.free = cell.free := by
  have hmem := List.mem_map_of_mem h (f := fun block ↦ (block.address, block.size, block.free))
  rw [layout_map_placed, List.mem_map] at hmem
  obtain ⟨⟨position, cell⟩, hplaced, heq⟩ := hmem
  simp only [Prod.mk.injEq] at heq
  exact ⟨position, cell, hplaced, heq.1.symm, heq.2.1.symm, heq.2.2.symm⟩

theorem exists_block_of_mem_placed {base position : ℕ} {cells : List Cell} {cell : Cell}
    (h : (position, cell) ∈ Cells.placed 16 base cells) :
    ∃ block ∈ layout base cells, block.address = .ofNat 32 position ∧ block.free = cell.free := by
  have hmem := List.mem_map_of_mem h (f := fun entry : ℕ × Cell ↦
    (BitVec.ofNat 32 entry.1, BitVec.ofNat 32 entry.2.size, entry.2.free))
  rw [← layout_map_placed, List.mem_map] at hmem
  obtain ⟨block, hblock, heq⟩ := hmem
  simp only [Prod.mk.injEq] at heq
  exact ⟨block, hblock, heq.1, heq.2.2⟩

theorem layout_linked {base : ℕ} {cells : List Cell}
    (hbound : base + Cells.extent 16 cells ≤ 2 ^ 31) :
    (layout base cells).IsChain fun block next ↦ block.next = next.address ∧
      next.address.toNat = block.address.toNat + headerSize.toNat + block.size.toNat := by
  induction cells generalizing base with
  | nil => exact .nil
  | cons cell rest ih =>
    have hroom : base + (16 + cell.size + Cells.extent 16 rest) ≤ 2 ^ 31 := hbound
    have hrest := @ih (Cells.after 16 base cell) (by simp only [Cells.after]; omega)
    cases rest with
    | nil => exact .singleton _
    | cons next rest =>
      refine List.isChain_cons_cons.mpr ⟨⟨rfl, ?_⟩, hrest⟩
      simp (disch := omega) only [headerSize_eq, Cells.after, Word.toNat_ofNat_of_lt]

theorem layout_ends {base : ℕ} {cells : List Cell}
    (hbound : base + Cells.extent 16 cells ≤ 2 ^ 31) :
    ∀ last ∈ (layout base cells).getLast?, last.next = 0 ∧
      last.address.toNat + headerSize.toNat + last.size.toNat = base + Cells.extent 16 cells := by
  induction cells generalizing base with
  | nil => simp [layout]
  | cons cell rest ih =>
    have hroom : base + (16 + cell.size + Cells.extent 16 rest) ≤ 2 ^ 31 := hbound
    intro last hlast
    cases rest with
    | nil =>
      obtain rfl : _ = last := by simpa [layout] using hlast
      simp (disch := omega) only [headerSize_eq, Cells.extent, Word.toNat_ofNat_of_lt]
      exact ⟨rfl, by omega⟩
    | cons next rest =>
      have hrest := @ih (Cells.after 16 base cell) (by simp only [Cells.after]; omega) last
        (by simpa [layout] using hlast)
      refine ⟨hrest.1, hrest.2.trans ?_⟩
      simp only [Cells.after, Cells.extent]
      omega

theorem Invariant.blockList_eq {client : Client} {cells : List Cell} (h : Invariant client cells) :
    blockList client.memory walkBound client.head = some (layout 0x100000 cells) := by
  rw [h.head_eq_link]
  exact blockList_eq_layout h.represents h.bound (by decide) h.length_lt

theorem Invariant.tilesHeap {client : Client} {cells : List Cell} (h : Invariant client cells) :
    TilesHeap (layout 0x100000 cells) client.live where
  starts := by
    cases cells with
    | nil => exact absurd rfl h.cells_ne_nil
    | cons cell rest => rfl
  linked := layout_linked h.bound
  ends := by
    have hends := layout_ends h.bound
    rw [h.extent] at hends
    exact hends
  granular := by
    intro block hblock
    obtain ⟨position, cell, hplaced, -, hsize, -⟩ := exists_placed_of_mem_layout hblock
    have hbounds := (h.placed_spec hplaced).1
    obtain ⟨left, right, rfl, -⟩ := Cells.exists_split_of_mem_placed hplaced
    rw [hsize, Word.toNat_ofNat_of_lt (by omega)]
    exact h.granular cell (by simp)
  separated := by
    have hfree : ((layout 0x100000 cells).map Block.free).IsChain
        fun left right ↦ ¬ (left = true ∧ right = true) := by
      rw [layout_map_free, List.isChain_map]
      exact h.separated
    exact (List.isChain_map _).mp hfree
  live_nodup := h.live_nodup
  live_iff := by
    intro ptr
    rw [h.live_iff]
    constructor
    · rintro ⟨⟨position, cell⟩, hused, rfl⟩
      obtain ⟨hplaced, hcell⟩ := Cells.mem_inUse.mp hused
      obtain ⟨block, hblock, haddress, hfree⟩ := exists_block_of_mem_placed hplaced
      refine ⟨block, hblock, hfree.trans hcell, ?_⟩
      rw [haddress, headerSize_eq, BitVec.ofNat_add]
    · rintro ⟨block, hblock, hfree, rfl⟩
      obtain ⟨position, cell, hplaced, haddress, -, hcell⟩ := exists_placed_of_mem_layout hblock
      refine ⟨(position, cell), Cells.mem_inUse.mpr ⟨hplaced, hcell ▸ hfree⟩, ?_⟩
      rw [haddress, headerSize_eq, BitVec.ofNat_add]

/-! ## Every run -/

/-- Two live payloads share no byte. -/
theorem Invariant.payload_disjoint {client : Client} {cells : List Cell} (h : Invariant client cells)
    {first second target : Word} (hfirst : first ∈ client.live) (hsecond : second ∈ client.live)
    (hne : first ≠ second) (htarget : Payload client.memory first target) :
    ¬ Payload client.memory second target := by
  obtain ⟨left, leftCell, hleft, rfl, hleftIff⟩ := h.cell_of_live hfirst
  obtain ⟨right, rightCell, hright, rfl, hrightIff⟩ := h.cell_of_live hsecond
  rw [hrightIff]
  rw [hleftIff] at htarget
  have hplaces := Cells.placed_disjoint (Cells.mem_inUse.mp hleft).1 (Cells.mem_inUse.mp hright).1
  rcases hplaces with ⟨rfl, -⟩ | hbefore | hafter
  · exact absurd rfl hne
  · omega
  · omega

theorem Invariant.live_aligned {client : Client} {cells : List Cell} (h : Invariant client cells)
    {ptr : Word} (hlive : ptr ∈ client.live) : 8 ∣ ptr.toNat ∧ heap.toNat ≤ ptr.toNat ∧
      ptr.toNat + (client.memory.load32 (ptr - headerSize)).toNat ≤ heap.toNat + heapSize.toNat := by
  obtain ⟨position, cell, hused, rfl, -⟩ := h.cell_of_live hlive
  have hplaced := (Cells.mem_inUse.mp hused).1
  obtain ⟨hbounds, hptr, hrecorded⟩ := h.placed_spec hplaced
  obtain ⟨left, right, hcells, hposition⟩ := Cells.exists_split_of_mem_placed hplaced
  have hleft : 8 ∣ Cells.extent 16 left :=
    Cells.Granular.dvd_extent (fun other hother ↦ h.granular other (by simp [hcells, hother])) (by decide)
  have hheap : heap.toNat = 0x100000 := rfl
  have hheapSize : heapSize.toNat = 0x100000 := rfl
  rw [hptr, hrecorded, hheap, hheapSize]
  omega

/-- In every run the headers tile the heap, the blocks in use are those of the live pointers, and
every further call returns. -/
theorem blockList_tiles_heap {client : Client} (h : Reachable Initial Step client) :
    (∃ blocks, blockList client.memory walkBound client.head = some blocks ∧
      TilesHeap blocks client.live) ∧
    (∀ ptr ∈ client.live, 8 ∣ ptr.toNat ∧ heap.toNat ≤ ptr.toNat ∧
      ptr.toNat + (client.memory.load32 (ptr - headerSize)).toNat ≤ heap.toNat + heapSize.toNat) ∧
    (∀ first ∈ client.live, ∀ second ∈ client.live, first ≠ second →
      ∀ target, Payload client.memory first target → ¬ Payload client.memory second target) ∧
    (∀ size, ∃ result after,
      exec handle (kmalloc client.head size) client.memory = some (result, after)) ∧
    (∀ ptr, ptr = 0 ∨ ptr ∈ client.live → ∃ after,
      exec handle (kfree client.head ptr) client.memory = some ((), after)) := by
  obtain ⟨cells, hinv⟩ := exists_invariant h
  refine ⟨⟨_, hinv.blockList_eq, hinv.tilesHeap⟩, fun ptr hlive ↦ hinv.live_aligned hlive, ?_, ?_, ?_⟩
  · intro first hfirst second hsecond hne target htarget
    exact hinv.payload_disjoint hfirst hsecond hne htarget
  · intro size
    obtain ⟨result, after, hexec, -⟩ := (hinv.kmalloc_spec size).exec
    exact ⟨result, after, hexec⟩
  · rintro ptr (rfl | hlive)
    · exact ⟨client.memory, rfl⟩
    · obtain ⟨position, cell, hused, rfl, -⟩ := hinv.cell_of_live hlive
      obtain ⟨⟨⟩, after, hexec, -⟩ := (hinv.kfree_spec hused).exec
      exact ⟨after, hexec⟩

/-- The first request to a fresh heap is served as the tiling says. -/
theorem exists_first_request {size : Word} {position : ℕ} {next : List Cell}
    (h : allocate size [⟨0x100000 - 16, true⟩] = some (position, next)) :
    ∃ client after, Initial client ∧ client.live = [] ∧
      exec handle (kmalloc client.head size) client.memory = some (.ofNat 32 (position + 16), after) ∧
      Represents after 0x100000 next := by
  obtain ⟨head, memory, hinit, -⟩ := (kmallocInit_spec fun _ ↦ 0).exec
  have hinitial : Initial ⟨memory, head, [], fun _ ↦ none⟩ := .init hinit
  have hspec := (Invariant.initial hinitial).kmalloc_spec size
  rw [h] at hspec
  obtain ⟨result, after, hexec, rfl, hrep⟩ := hspec.exec
  exact ⟨_, after, hinitial, rfl, hexec, hrep⟩

/-- 24 bytes split the only block of a fresh heap. -/
theorem allocate_fresh : allocate 24 [⟨0x100000 - 16, true⟩] =
    some (0x100000, [⟨24, false⟩, ⟨0x100000 - 56, true⟩]) := by
  decide

/-- A first client asks for 24 bytes of a fresh heap. -/
theorem exists_reachable_one_block :
    ∃ client, Reachable Initial Step client ∧ client.live = [0x100010#32] := by
  obtain ⟨client, after, hinitial, hlive, hexec, -⟩ := exists_first_request allocate_fresh
  refine ⟨_, (Reachable.initial hinitial).step (.kmalloc hexec), ?_⟩
  rw [Client.allocated, if_neg (by decide)]
  exact congrArg (List.cons _) hlive

theorem blockList_tiles_heap_one_block : ∃ client : Client, client.live = [0x100010#32] ∧
    ∃ blocks, blockList client.memory walkBound client.head = some blocks ∧
      TilesHeap blocks client.live := by
  obtain ⟨client, hreachable, hlive⟩ := exists_reachable_one_block
  exact ⟨client, hlive, (blockList_tiles_heap hreachable).1⟩

/-- In every run a client's bytes are its own: its stores leave the block list alone, what it
stored last is still there, and no call stores into a payload that stays live. -/
theorem client_bytes_kept {client : Client} (h : Reachable Initial Step client) :
    (∀ address value after, Step client (.store address value) after →
      blockList after.memory walkBound after.head =
        blockList client.memory walkBound client.head) ∧
    (∀ ptr ∈ client.live, ∀ target, Payload client.memory ptr target →
      ∀ value, client.stored target = some value → client.memory target = value) ∧
    (∀ size, ∀ event ∈ events handle (kmalloc client.head size) client.memory,
      ∀ ptr ∈ client.live, ∀ target, Payload client.memory ptr target → ¬ event.2.Writes target) ∧
    (∀ freed, freed = 0 ∨ freed ∈ client.live →
      ∀ event ∈ events handle (kfree client.head freed) client.memory,
        ∀ ptr ∈ client.live, ptr ≠ freed → ∀ target, Payload client.memory ptr target →
          ¬ event.2.Writes target) := by
  obtain ⟨cells, hinv⟩ := exists_invariant h
  refine ⟨?_, hinv.stored, ?_, ?_⟩
  · intro address value after hstep
    cases hstep with
    | store hlive hpayload =>
      rw [hinv.blockList_eq, (hinv.store hlive hpayload).blockList_eq]
  · intro size event hevent ptr hlive target hpayload hwrites
    have hallowed := (hinv.kmalloc_spec size).events event hevent target hwrites
    exact hinv.payload_not_freeSpan hlive hpayload hallowed
  · rintro freed (rfl | hfreed) event hevent ptr hlive hne target hpayload hwrites
    · simp [kfree, events, pure] at hevent
    · obtain ⟨position, cell, hused, rfl, -⟩ := hinv.cell_of_live hfreed
      have hallowed := (hinv.kfree_spec hused).events event hevent target hwrites
      exact hinv.payload_not_freeSpan_markFree hused hlive hne hpayload hallowed

theorem client_bytes_kept_one_block : ∃ client : Client, client.live = [0x100010#32] ∧
    ∀ size, ∀ event ∈ events handle (kmalloc client.head size) client.memory,
      ∀ target, Payload client.memory 0x100010#32 target → ¬ event.2.Writes target := by
  obtain ⟨client, hreachable, hlive⟩ := exists_reachable_one_block
  refine ⟨client, hlive, fun size event hevent target ↦ ?_⟩
  exact (client_bytes_kept hreachable).2.2.1 size event hevent _ (by simp [hlive]) target

end NeilOS.Kmalloc
