import NeilOS.Foundation.Cells
import NeilOS.Kmalloc.Model

/-!
# The block list in memory

The linked headers represent a tiling of the heap by `Cell`s. `Represents` reads the headers one
after the other; each `next` field is the start of the following cell, or `NULL` at the end. The
specification lemmas say that the search loop is first fit on the cells and that the two nested
loops of `kfree` are one coalescing pass. Their guarantee is the footprint: `kmalloc` stores only
inside free cells, and `kfree` only inside cells that are free once the block is marked.
-/

namespace NeilOS.Kmalloc

open Foundation MemoryProgram MemoryOp Program

/-- What a pointer to a possibly empty list of cells at `base` holds. -/
def link (base : ℕ) (cells : List Cell) : Word :=
  if cells = [] then 0 else .ofNat 32 base

structure HeaderAt (memory : Memory) (base : ℕ) (cell : Cell) (next : Word) : Prop where
  size : memory.load32 (.ofNat 32 base) = .ofNat 32 cell.size
  free : (memory (.ofNat 32 (base + 4)) != 0#8) = cell.free
  next : memory.load32 (.ofNat 32 (base + 8)) = next

def Represents (memory : Memory) : ℕ → List Cell → Prop
  | _, [] => True
  | base, cell :: rest =>
      HeaderAt memory base cell (link (Cells.after 16 base cell) rest) ∧
        Represents memory (Cells.after 16 base cell) rest

/-- The bytes of the free cells, headers included. -/
def FreeSpan (base : ℕ) (cells : List Cell) (target : Word) : Prop :=
  ∃ position cell, (position, cell) ∈ Cells.placed 16 base cells ∧ cell.free = true ∧
    position ≤ target.toNat ∧ target.toNat < position + 16 + cell.size

@[simp] theorem headerSize_eq : headerSize = 16#32 := by decide

@[simp] theorem link_nil (base : ℕ) : link base [] = 0#32 := rfl

@[simp] theorem link_cons (base : ℕ) (cell : Cell) (rest : List Cell) :
    link base (cell :: rest) = .ofNat 32 base := rfl

theorem ofNat_ne_zero {number : ℕ} (hpositive : 0 < number) (hbound : number < 2 ^ 32) :
    BitVec.ofNat 32 number ≠ 0#32 := by
  bv_omega

/-! ## Frame facts -/

theorem HeaderAt.frame {before after : Memory} {base : ℕ} {cell : Cell} {next : Word}
    (h : HeaderAt before base cell next) (hbound : base + 16 ≤ 2 ^ 32)
    (hsame : ∀ target : Word, base ≤ target.toNat → target.toNat < base + 16 →
      after target = before target) : HeaderAt after base cell next where
  size := by
    rw [← h.size]
    apply Memory.load32_ofNat_congr (by omega)
    intro target hlow hhigh
    exact hsame target hlow (by omega)
  free := by
    rw [← h.free, hsame _ (by bv_omega) (by bv_omega)]
  next := by
    rw [← h.next]
    apply Memory.load32_ofNat_congr (by omega)
    intro target hlow hhigh
    exact hsame target (by omega) (by omega)

/-- The representation depends on the header bytes only. -/
theorem Represents.frame {before after : Memory} {base : ℕ} {cells : List Cell}
    (h : Represents before base cells) (hbound : base + Cells.extent 16 cells ≤ 2 ^ 32)
    (hsame : ∀ position cell, (position, cell) ∈ Cells.placed 16 base cells →
      ∀ target : Word, position ≤ target.toNat → target.toNat < position + 16 →
        after target = before target) : Represents after base cells := by
  induction cells generalizing base with
  | nil => trivial
  | cons cell rest ih =>
    simp only [Cells.extent] at hbound
    refine ⟨h.1.frame (by omega) (hsame base cell (by simp [Cells.placed])), ih h.2 ?_ ?_⟩
    · simp only [Cells.after]
      omega
    · intro position other hother
      exact hsame position other (by simp [Cells.placed, hother])

/-- Stores below the first cell do not reach the representation. -/
theorem Represents.frame_below {before after : Memory} {base : ℕ} {cells : List Cell}
    (h : Represents before base cells) (hbound : base + Cells.extent 16 cells ≤ 2 ^ 32)
    (hsame : ∀ target : Word, base ≤ target.toNat → after target = before target) :
    Represents after base cells := by
  apply h.frame hbound
  intro position cell hplaced target hlow _
  have hposition := (Cells.placed_bounds hplaced).1
  exact hsame target (by omega)

theorem FreeSpan.tail {base : ℕ} {cell : Cell} {rest : List Cell} {target : Word}
    (h : FreeSpan (Cells.after 16 base cell) rest target) : FreeSpan base (cell :: rest) target := by
  obtain ⟨position, other, hplaced, hfree, hrange⟩ := h
  exact ⟨position, other, by simp [Cells.placed, hplaced], hfree, hrange⟩

theorem FreeSpan.head {base : ℕ} {cell : Cell} {rest : List Cell} {target : Word}
    (hfree : cell.free = true) (hlow : base ≤ target.toNat)
    (hhigh : target.toNat < base + 16 + cell.size) : FreeSpan base (cell :: rest) target :=
  ⟨base, cell, by simp [Cells.placed], hfree, hlow, hhigh⟩

theorem FreeSpan.base_le {base : ℕ} {cells : List Cell} {target : Word}
    (h : FreeSpan base cells target) : base ≤ target.toNat := by
  obtain ⟨position, cell, hplaced, -, hlow, -⟩ := h
  exact (Cells.placed_bounds hplaced).1.trans hlow

/-- A word store inside a byte window stays inside it. -/
theorem word_within {address low high : ℕ} (hlow : low ≤ address) (hhigh : address + 4 ≤ high)
    (hbound : high ≤ 2 ^ 32) (target : Word) (h : (target - .ofNat 32 address).toNat < 4) :
    low ≤ target.toNat ∧ target.toNat < high := by
  bv_omega

theorem byte_within {address low high : ℕ} (hlow : low ≤ address) (hhigh : address < high)
    (hbound : high ≤ 2 ^ 32) :
    low ≤ (BitVec.ofNat 32 address).toNat ∧ (BitVec.ofNat 32 address).toNat < high := by
  bv_omega

/-- Storing the flag byte of the first block changes its flag and nothing else. -/
theorem Represents.setFree {memory : Memory} {base : ℕ} {cell : Cell} {rest : List Cell}
    (h : Represents memory base (cell :: rest))
    (hbound : base + Cells.extent 16 (cell :: rest) ≤ 2 ^ 31) (free : Bool) :
    Represents (memory.store8 (.ofNat 32 (base + 4)) (if free then 1#8 else 0#8)) base
      (⟨cell.size, free⟩ :: rest) := by
  simp only [Cells.extent] at hbound
  refine ⟨⟨?_, ?_, ?_⟩, ?_⟩
  · rw [Memory.load32_store8_ofNat_of_outside (by omega) (by omega) (by omega), h.1.size]
  · cases free <;> simp
  · rw [Memory.load32_store8_ofNat_of_outside (by omega) (by omega) (by omega), h.1.next]
    rfl
  · apply h.2.frame_below (by simp only [Cells.after]; omega)
    intro target htarget
    apply Memory.store8_of_ne
    rintro rfl
    simp only [Cells.after, Word.toNat_ofNat_of_lt (show base + 4 < 2 ^ 32 by omega)] at htarget
    omega

/-! ## Allocation -/

/-- The stores that cut a block in two, in the order of the source. -/
def splitStores (memory : Memory) (base request size : ℕ) (next : Word) : Memory :=
  (((((memory.store32 (.ofNat 32 (base + 16 + request)) (.ofNat 32 (size - request - 16))).store8
    (.ofNat 32 (base + 16 + request + 4)) 1#8).store32
    (.ofNat 32 (base + 16 + request + 8)) next).store32
    (.ofNat 32 base) (.ofNat 32 request)).store32
    (.ofNat 32 (base + 8)) (.ofNat 32 (base + 16 + request))).store8 (.ofNat 32 (base + 4)) 0#8

theorem splitStores_of_outside {memory : Memory} {base request size : ℕ} {next target : Word}
    (hsize : request + 24 ≤ size) (hbound : base + 16 + size ≤ 2 ^ 31)
    (h : target.toNat < base ∨ base + 16 + size ≤ target.toNat) :
    splitStores memory base request size next target = memory target := by
  have htarget : target = .ofNat 32 target.toNat := by simp
  have hlt := target.isLt
  rw [htarget]
  unfold splitStores
  simp (disch := omega) only [Memory.store8_ofNat_of_ne, Memory.store32_ofNat_of_outside]

/-- After the split the two new headers stand where the cells say, and the rest is untouched. -/
theorem represents_splitStores {memory : Memory} {base request : ℕ} {cell : Cell} {rest : List Cell}
    (hrest : Represents memory (Cells.after 16 base cell) rest)
    (hbound : base + Cells.extent 16 (cell :: rest) ≤ 2 ^ 31) (hsplit : request + 24 ≤ cell.size) :
    Represents (splitStores memory base request cell.size (link (Cells.after 16 base cell) rest))
      base (⟨request, false⟩ :: ⟨cell.size - request - 16, true⟩ :: rest) := by
  simp only [Cells.extent] at hbound
  have hend : Cells.after 16 (Cells.after 16 base ⟨request, false⟩)
      ⟨cell.size - request - 16, true⟩ = Cells.after 16 base cell := by
    simp only [Cells.after]
    omega
  refine ⟨⟨?_, ?_, ?_⟩, ⟨?_, ?_, ?_⟩, ?_⟩
  · simp (disch := omega) only [splitStores, Memory.load32_store8_ofNat_of_outside,
      Memory.load32_store32_ofNat_of_apart, Memory.load32_store32]
  · simp [splitStores]
  · simp (disch := omega) only [splitStores, Memory.load32_store8_ofNat_of_outside,
      Memory.load32_store32, link_cons, Cells.after]
  · simp (disch := omega) only [splitStores, Cells.after, Memory.load32_store8_ofNat_of_outside,
      Memory.load32_store32_ofNat_of_apart, Memory.load32_store32]
  · simp (disch := omega) only [splitStores, Cells.after, Memory.store8_ofNat_of_ne,
      Memory.store32_ofNat_of_outside, Memory.store8_same]
    decide
  · rw [hend]
    simp (disch := omega) only [splitStores, Cells.after, Memory.load32_store8_ofNat_of_outside,
      Memory.load32_store32_ofNat_of_apart, Memory.load32_store32]
  · rw [hend]
    apply hrest.frame_below (by simp only [Cells.after]; omega)
    intro target htarget
    exact splitStores_of_outside hsplit (by omega) (.inr htarget)

/-- Taking a free block rewrites its own bytes and turns the cell into its carved form. -/
theorem kmallocTake_spec {memory : Memory} {base request : ℕ} {cell : Cell} {rest : List Cell}
    (hrep : Represents memory base (cell :: rest))
    (hbound : base + Cells.extent 16 (cell :: rest) ≤ 2 ^ 31) (hrequest : request ≤ cell.size) :
    Meets handle
      (StoresWithin fun target ↦ base ≤ target.toNat ∧ target.toNat < base + 16 + cell.size)
      (kmallocTake (.ofNat 32 base) (.ofNat 32 request)) memory fun value after ↦
        value = .ofNat 32 (base + 16) ∧
          Represents after base (Cells.carve 16 24 request cell ++ rest) := by
  have hroom : base + (16 + cell.size + Cells.extent 16 rest) ≤ 2 ^ 31 := hbound
  have hsize := hrep.1.size
  have hcond : BitVec.ofNat 32 (request + 16 + 8) ≤ BitVec.ofNat 32 cell.size ↔
      request + 24 ≤ cell.size := by
    bv_omega
  simp only [kmallocTake, readSize, readNext, writeSize, writeFree, writeNext, headerSize_eq,
    meets_bind, meets_read32, hsize, BitVec.ofNat_eq_ofNat, ← BitVec.ofNat_add, hcond, Cells.carve]
  by_cases hsplit : request + 24 ≤ cell.size
  · have hremainder : BitVec.ofNat 32 cell.size - BitVec.ofNat 32 request - 16#32 =
        BitVec.ofNat 32 (cell.size - request - 16) := by
      bv_omega
    have hnext : ((memory.store32 (.ofNat 32 (base + 16 + request))
        (.ofNat 32 (cell.size - request - 16))).store8
          (.ofNat 32 (base + 16 + request + 4)) 1#8).load32 (.ofNat 32 (base + 8)) =
            link (Cells.after 16 base cell) rest := by
      simp (disch := omega) only [Memory.load32_store8_ofNat_of_outside,
        Memory.load32_store32_ofNat_of_apart, hrep.1.next]
    simp only [if_pos hsplit, meets_bind, meets_read32, meets_write32, meets_write8, meets_pure,
      hsize, hremainder, hnext, if_true, true_and]
    refine ⟨word_within (by omega) (by omega) (by omega), byte_within (by omega) (by omega) (by omega),
      word_within (by omega) (by omega) (by omega), word_within (by omega) (by omega) (by omega),
      word_within (by omega) (by omega) (by omega), byte_within (by omega) (by omega) (by omega), ?_⟩
    exact represents_splitStores hrep.2 hbound hsplit
  · simp only [if_neg hsplit, meets_bind, meets_write8, meets_pure, true_and]
    exact ⟨byte_within (by omega) (by omega) (by omega), hrep.setFree hbound false⟩

/-- First fit replaces cells but never the start of the list. -/
theorem link_firstFit {request base position : ℕ} {cells next : List Cell}
    (h : Cells.firstFit 16 24 request base cells = some (position, next)) :
    link base cells = link base next := by
  obtain ⟨left, cell, right, rfl, -, -, -, -, rfl⟩ := Cells.firstFit_eq_some h
  have hcarve : Cells.carve 16 24 request cell ≠ [] := by
    unfold Cells.carve
    split <;> simp
  simp [link, hcarve]

/-- The search loop is first fit, and stores only inside free cells. -/
theorem kmallocLoop_spec {memory : Memory} {request base fuel : ℕ} {cells : List Cell}
    (hrep : Represents memory base cells) (hbound : base + Cells.extent 16 cells ≤ 2 ^ 31)
    (hpositive : 0 < base) (hrequest : request < 2 ^ 32) (hfuel : cells.length < fuel) :
    Meets handle (StoresWithin (FreeSpan base cells))
      (kmallocLoop (.ofNat 32 request) fuel (link base cells)) memory fun value after ↦
        match Cells.firstFit 16 24 request base cells with
        | none => value = 0 ∧ after = memory
        | some (position, next) =>
            value = .ofNat 32 (position + 16) ∧ Represents after base next := by
  induction cells generalizing base fuel with
  | nil =>
    obtain ⟨fuel, rfl⟩ : ∃ smaller, fuel = smaller + 1 := ⟨fuel - 1, by omega⟩
    simp [kmallocLoop, Cells.firstFit]
  | cons cell rest ih =>
    obtain ⟨fuel, rfl⟩ : ∃ smaller, fuel = smaller + 1 := ⟨fuel - 1, by omega⟩
    have hroom : base + (16 + cell.size + Cells.extent 16 rest) ≤ 2 ^ 31 := hbound
    have hnonzero : BitVec.ofNat 32 base ≠ 0#32 := ofNat_ne_zero hpositive (by omega)
    have hskip : (!cell.free || decide (BitVec.ofNat 32 cell.size < BitVec.ofNat 32 request)) = true ↔
        ¬ (cell.free = true ∧ request ≤ cell.size) := by
      have hsmaller : BitVec.ofNat 32 cell.size < BitVec.ofNat 32 request ↔ cell.size < request := by
        bv_omega
      cases cell.free <;> simp [hsmaller]
    simp only [kmallocLoop, link_cons, if_neg hnonzero, readFree, readSize, readNext, meets_bind,
      meets_read8, meets_read32, meets_pure, BitVec.ofNat_eq_ofNat, ← BitVec.ofNat_add,
      hrep.1.size, hrep.1.free, hskip, Cells.firstFit]
    by_cases hfits : cell.free = true ∧ request ≤ cell.size
    · rw [if_neg (not_not.mpr hfits), if_pos hfits]
      apply allow_stores (kmallocTake_spec hrep hbound hfits.2)
      intro target htarget
      exact .head hfits.1 htarget.1 htarget.2
    · rw [if_pos hfits, if_neg hfits]
      simp only [meets_bind, meets_read32, hrep.1.next]
      have htail := @ih (Cells.after 16 base cell) fuel hrep.2
        (by simp only [Cells.after]; omega) (by simp only [Cells.after]; omega)
        (by simpa using hfuel)
      refine (allow_stores (frame htail) fun target htarget ↦ htarget.tail).mono ?_
      rintro value after ⟨hresult, hsame⟩
      cases hfound : Cells.firstFit 16 24 request (Cells.after 16 base cell) rest with
      | none => simpa [hfound] using hresult
      | some found =>
        simp only [hfound, Option.map_some] at hresult ⊢
        refine ⟨hresult.1, ?_, hresult.2⟩
        rw [← link_firstFit hfound]
        apply hrep.1.frame (by omega)
        intro target _ hhigh
        exact hsame target fun hspan ↦ by
          have hlow := hspan.base_le
          simp only [Cells.after] at hlow
          omega

/-! ## Release -/

/-- The two stores of one merge leave a header for the merged cell; the old header becomes payload. -/
theorem Represents.merge {memory : Memory} {base : ℕ} {cell next : Cell} {rest : List Cell}
    (h : Represents memory base (cell :: next :: rest))
    (hbound : base + Cells.extent 16 (cell :: next :: rest) ≤ 2 ^ 31) :
    Represents ((memory.store32 (.ofNat 32 base) (.ofNat 32 (cell.size + 16 + next.size))).store32
        (.ofNat 32 (base + 8)) (link (Cells.after 16 (Cells.after 16 base cell) next) rest)) base
      (Cells.merge 16 cell next :: rest) := by
  simp only [Cells.extent] at hbound
  have hend : Cells.after 16 base (Cells.merge 16 cell next) =
      Cells.after 16 (Cells.after 16 base cell) next := by
    simp only [Cells.after, Cells.merge]
    omega
  refine ⟨⟨?_, ?_, ?_⟩, ?_⟩
  · simp (disch := omega) only [Memory.load32_store32_ofNat_of_apart, Memory.load32_store32,
      Cells.merge]
  · simp (disch := omega) only [Memory.store32_ofNat_of_outside, Cells.merge]
    exact h.1.free
  · rw [Memory.load32_store32, hend]
  · rw [hend]
    apply h.2.2.frame_below (by simp only [Cells.after]; omega)
    intro target htarget
    have hnumber : target = .ofNat 32 target.toNat := by simp
    have hlt := target.isLt
    simp only [Cells.after] at htarget
    rw [hnumber]
    simp (disch := omega) only [Memory.store32_ofNat_of_outside]

/-- The inner loop absorbs the free cells behind a free cell, storing to its header only. -/
theorem kfreeMerge_spec {memory : Memory} {base fuel : ℕ} {cell : Cell} {rest : List Cell}
    (hrep : Represents memory base (cell :: rest))
    (hbound : base + Cells.extent 16 (cell :: rest) ≤ 2 ^ 31) (hpositive : 0 < base)
    (hfuel : rest.length < fuel) :
    Meets handle
      (StoresWithin fun target ↦ cell.free = true ∧ base ≤ target.toNat ∧ target.toNat < base + 16)
      (kfreeMerge fuel (.ofNat 32 base)) memory fun _ after ↦
        Represents after base
          ((Cells.absorb 16 cell rest).1 :: (Cells.absorb 16 cell rest).2) := by
  induction rest generalizing memory cell fuel with
  | nil =>
    obtain ⟨fuel, rfl⟩ : ∃ smaller, fuel = smaller + 1 := ⟨fuel - 1, by omega⟩
    have hnext : memory.load32 (.ofNat 32 (base + 8)) = 0#32 := hrep.1.next
    simp only [kfreeMerge, readFree, readNext, meets_bind, meets_read8, meets_read32, meets_pure,
      BitVec.ofNat_eq_ofNat, ← BitVec.ofNat_add, hnext]
    simpa [Cells.absorb] using hrep
  | cons next rest ih =>
    obtain ⟨fuel, rfl⟩ : ∃ smaller, fuel = smaller + 1 := ⟨fuel - 1, by omega⟩
    have hroom : base + (16 + cell.size + (16 + next.size + Cells.extent 16 rest)) ≤ 2 ^ 31 := hbound
    have hnext : memory.load32 (.ofNat 32 (base + 8)) = .ofNat 32 (base + 16 + cell.size) :=
      hrep.1.next
    have hnextFree : (memory (.ofNat 32 (base + 16 + cell.size + 4)) != 0#8) = next.free :=
      hrep.2.1.free
    have hnextSize : memory.load32 (.ofNat 32 (base + 16 + cell.size)) = .ofNat 32 next.size :=
      hrep.2.1.size
    have hnonzero : BitVec.ofNat 32 (base + 16 + cell.size) ≠ 0#32 :=
      ofNat_ne_zero (by omega) (by omega)
    simp only [kfreeMerge, readFree, readNext, readSize, writeSize, writeNext, headerSize_eq,
      meets_bind, meets_read8, meets_read32, meets_pure, BitVec.ofNat_eq_ofNat, ← BitVec.ofNat_add,
      hnext, hrep.1.free, hnonzero, decide_false, Bool.or_false]
    cases hfree : cell.free with
    | false => simpa [Cells.absorb, hfree] using hrep
    | true =>
      simp only [Bool.not_true, Bool.false_eq_true, if_false, meets_bind, meets_read8, meets_pure,
        hnextFree]
      cases hother : next.free with
      | false => simpa [Cells.absorb, hother] using hrep
      | true =>
        have hlink : (memory.store32 (.ofNat 32 base) (.ofNat 32 (cell.size + 16 + next.size))).load32
            (.ofNat 32 (base + 16 + cell.size + 8)) =
              link (Cells.after 16 (Cells.after 16 base cell) next) rest := by
          rw [Memory.load32_store32_ofNat_of_apart (by omega) (by omega) (by omega)]
          exact hrep.2.1.next
        simp only [Bool.not_true, Bool.false_eq_true, if_false, meets_bind, meets_read32,
          meets_write32, hrep.1.size, hnextSize, ← BitVec.ofNat_add, ← Nat.add_assoc, hlink,
          true_and, Cells.absorb, hfree, hother, and_self, if_true]
        refine ⟨word_within (by omega) (by omega) (by omega),
          word_within (by omega) (by omega) (by omega), ?_⟩
        have hmerged := @ih _ fuel _ (hrep.merge hbound)
          (by simp only [Cells.extent, Cells.merge] at hbound ⊢; omega) (by simpa using hfuel)
        simpa only [Cells.merge, hfree, true_and] using hmerged

theorem FreeSpan.absorb {base : ℕ} {cell : Cell} {rest : List Cell} {target : Word}
    (h : FreeSpan base ((Cells.absorb 16 cell rest).1 :: (Cells.absorb 16 cell rest).2) target) :
    FreeSpan base (cell :: rest) target := by
  induction rest generalizing cell with
  | nil => exact h
  | cons next rest ih =>
    simp only [Cells.absorb] at h
    split at h
    · rename_i hboth
      obtain ⟨position, other, hplaced, hfree, hlow, hhigh⟩ := ih h
      simp only [Cells.placed, List.mem_cons, Prod.mk.injEq] at hplaced
      rcases hplaced with ⟨rfl, rfl⟩ | hplaced
      · by_cases hfirst : target.toNat < position + 16 + cell.size
        · exact .head hboth.1 hlow hfirst
        · apply FreeSpan.tail
          simp only [Cells.merge] at hhigh
          apply FreeSpan.head hboth.2 <;> simp only [Cells.after] <;> omega
      · refine FreeSpan.tail (FreeSpan.tail ⟨position, other, ?_, hfree, hlow, hhigh⟩)
        have hend : Cells.after 16 base (Cells.merge 16 cell next) =
            Cells.after 16 (Cells.after 16 base cell) next := by
          simp only [Cells.after, Cells.merge]
          omega
        rwa [hend] at hplaced
    · exact h

theorem link_coalesce (base : ℕ) (cells : List Cell) :
    link base (Cells.coalesce 16 cells) = link base cells := by
  cases cells with
  | nil => rfl
  | cons cell rest =>
    obtain ⟨first, tail, hpass, -⟩ := Cells.head_coalesceFrom_free 16 cell rest
    simp [Cells.coalesce, hpass]

/-- The two nested loops are one coalescing pass, and store only inside free cells. -/
theorem kfreeLoop_spec {memory : Memory} {base fuel : ℕ} {cells : List Cell}
    (hrep : Represents memory base cells) (hbound : base + Cells.extent 16 cells ≤ 2 ^ 31)
    (hpositive : 0 < base) (hwalk : cells.length ≤ walkBound) (hfuel : cells.length < fuel) :
    Meets handle (StoresWithin (FreeSpan base cells)) (kfreeLoop fuel (link base cells)) memory
      fun _ after ↦ Represents after base (Cells.coalesce 16 cells) := by
  induction fuel generalizing memory base cells with
  | zero => omega
  | succ fuel ih =>
    cases cells with
    | nil => simp [kfreeLoop, Cells.coalesce, Represents]
    | cons cell rest =>
      have hroom : base + (16 + cell.size + Cells.extent 16 rest) ≤ 2 ^ 31 := hbound
      have hnonzero : BitVec.ofNat 32 base ≠ 0#32 := ofNat_ne_zero hpositive (by omega)
      have hmerge := @kfreeMerge_spec memory base walkBound cell rest hrep hbound hpositive
        (by simp only [List.length_cons] at hwalk; omega)
      have hsame : Cells.after 16 base (Cells.absorb 16 cell rest).1 +
          Cells.extent 16 (Cells.absorb 16 cell rest).2 =
            base + (16 + cell.size + Cells.extent 16 rest) := by
        have hextent := @Cells.extent_absorb 16 cell rest
        simp only [Cells.after]
        omega
      have hlength := @Cells.absorb_length_le 16 cell rest
      simp only [List.length_cons] at hwalk hfuel
      rw [link_cons, kfreeLoop, BitVec.ofNat_eq_ofNat, if_neg hnonzero]
      apply Meets.bind (allow_stores hmerge fun target htarget ↦
        .head htarget.1 htarget.2.1 (by omega))
      intro _ merged hmerged
      simp only [readNext, BitVec.ofNat_eq_ofNat, ← BitVec.ofNat_add, meets_bind, meets_read32,
        hmerged.1.next]
      have htail := @ih merged _ _ hmerged.2 (by omega) (by simp only [Cells.after]; omega)
        (by omega) (by omega)
      refine (allow_stores (frame htail) fun target htarget ↦ htarget.tail.absorb).mono ?_
      rintro _ after ⟨hrest, hkept⟩
      rw [Cells.coalesce, (Cells.absorb_spec 16 cell rest).2]
      refine ⟨?_, hrest⟩
      rw [link_coalesce]
      apply hmerged.1.frame (by omega)
      intro target _ hhigh
      exact hkept target fun hspan ↦ by
        have hlow := hspan.base_le
        simp only [Cells.after] at hlow
        omega

/-- Marking a placed block in memory marks its cell. -/
theorem Represents.markFree {memory : Memory} {base target : ℕ} {cell : Cell} {cells : List Cell}
    (h : Represents memory base cells) (hbound : base + Cells.extent 16 cells ≤ 2 ^ 31)
    (hplaced : (target, cell) ∈ Cells.placed 16 base cells) :
    Represents (memory.store8 (.ofNat 32 (target + 4)) 1#8) base
      (Cells.markFree 16 target base cells) := by
  induction cells generalizing base with
  | nil => simp [Cells.placed] at hplaced
  | cons first rest ih =>
    have hroom : base + (16 + first.size + Cells.extent 16 rest) ≤ 2 ^ 31 := hbound
    simp only [Cells.placed, List.mem_cons, Prod.mk.injEq] at hplaced
    simp only [Cells.markFree]
    split
    · rename_i heq
      subst heq
      exact h.setFree hbound true
    · rename_i hne
      have hrest : (target, cell) ∈ Cells.placed 16 (Cells.after 16 base first) rest := by
        rcases hplaced with ⟨rfl, _⟩ | hrest
        · exact absurd rfl hne
        · exact hrest
      have hlow := (Cells.placed_bounds hrest).1
      have hhigh := (Cells.placed_bounds hrest).2
      have hlink : link (Cells.after 16 base first)
          (Cells.markFree 16 target (Cells.after 16 base first) rest) =
            link (Cells.after 16 base first) rest := by
        cases rest with
        | nil => rfl
        | cons second rest =>
          simp only [Cells.markFree]
          split <;> rfl
      simp only [Cells.after] at hlow hhigh
      refine ⟨?_, ih h.2 (by simp only [Cells.after]; omega) hrest⟩
      rw [hlink]
      apply h.1.frame (by omega)
      intro other _ hother
      apply Memory.store8_of_ne
      rintro rfl
      rw [Word.toNat_ofNat_of_lt (by omega)] at hother
      omega

/-- `kfree` releases the cell behind the pointer. -/
theorem kfree_spec {memory : Memory} {base target : ℕ} {cell : Cell} {cells : List Cell}
    (hrep : Represents memory base cells) (hbound : base + Cells.extent 16 cells ≤ 2 ^ 31)
    (hpositive : 0 < base) (hwalk : cells.length < walkBound)
    (hplaced : (target, cell) ∈ Cells.placed 16 base cells) :
    Meets handle (StoresWithin (FreeSpan base (Cells.markFree 16 target base cells)))
      (kfree (link base cells) (.ofNat 32 (target + 16))) memory fun _ after ↦
        Represents after base (Cells.release 16 target base cells) := by
  obtain ⟨left, right, hcells, htarget⟩ := Cells.exists_split_of_mem_placed hplaced
  have hbounds := Cells.placed_bounds hplaced
  have hmarked : Cells.markFree 16 target base cells = left ++ ⟨cell.size, true⟩ :: right := by
    rw [hcells, htarget, Cells.markFree_split (by omega)]
  have hlength : (Cells.markFree 16 target base cells).length = cells.length := by
    rw [hmarked, hcells]
    simp
  have hlink : link base cells = link base (Cells.markFree 16 target base cells) := by
    rw [hmarked, hcells]
    simp [link]
  have hnonzero : BitVec.ofNat 32 (target + 16) ≠ 0#32 := ofNat_ne_zero (by omega) (by omega)
  have hblock : BitVec.ofNat 32 (target + 16) - 16#32 = BitVec.ofNat 32 target := by bv_omega
  simp only [kfree, BitVec.ofNat_eq_ofNat, if_neg hnonzero, writeFree, headerSize_eq, hblock,
    meets_bind, meets_write8, ← BitVec.ofNat_add, if_true]
  refine ⟨⟨target, ⟨cell.size, true⟩, ?_, rfl, ?_⟩, ?_⟩
  · rw [hmarked, htarget]
    simp [Cells.placed]
  · rw [Word.toNat_ofNat_of_lt (by omega)]
    constructor <;> omega
  · rw [hlink]
    exact kfreeLoop_spec (hrep.markFree hbound hplaced) (by simpa using hbound) hpositive
      (by omega) (by omega)

end NeilOS.Kmalloc
