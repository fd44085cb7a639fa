import Mathlib.Data.List.Chain
import Mathlib.Data.List.Basic
import Mathlib.Tactic.Common
import Mathlib.Tactic.Ring

/-!
# An interval tiled by cells

A heap in the boundary style is one interval cut into consecutive cells. Each cell spends
`header` units on bookkeeping, offers `size` units of payload and is free or in use. Positions
are not stored: the cell at index `k` starts where the first `k` cells end, so the tiling holds by
construction and only the contents of the list change.

The module gives first-fit allocation with splitting, release with a full coalescing pass, and
what each operation does to the three things clients care about: the total `extent`, the absence
of adjacent free cells (`Separated`) and the list of cells in `use`.
-/

namespace Foundation

structure Cell where
  size : ℕ
  free : Bool
deriving DecidableEq, Repr

namespace Cells

variable (header slack : ℕ)

/-- The first position after a cell placed at `base`. -/
def after (base : ℕ) (cell : Cell) : ℕ := base + header + cell.size

def extent : List Cell → ℕ
  | [] => 0
  | cell :: rest => header + cell.size + extent rest

/-- Every cell with its position. -/
def placed : ℕ → List Cell → List (ℕ × Cell)
  | _, [] => []
  | base, cell :: rest => (base, cell) :: placed (after header base cell) rest

/-- No two neighbours are both free. -/
def Separated (cells : List Cell) : Prop :=
  List.IsChain (fun left right : Cell ↦ ¬ (left.free = true ∧ right.free = true)) cells

/-- The cells in use, with their positions. -/
def inUse (base : ℕ) (cells : List Cell) : List (ℕ × Cell) :=
  (placed header base cells).filter fun entry ↦ !entry.2.free

/-! ## Operations -/

/-- Use a free cell for a request: cut off the remainder when it is at least `slack`. -/
def carve (request : ℕ) (cell : Cell) : List Cell :=
  if request + slack ≤ cell.size then [⟨request, false⟩, ⟨cell.size - request - header, true⟩]
  else [⟨cell.size, false⟩]

/-- First fit: the position of the first free cell that is large enough, and the new cells. -/
def firstFit (request : ℕ) : ℕ → List Cell → Option (ℕ × List Cell)
  | _, [] => none
  | base, cell :: rest =>
      if cell.free = true ∧ request ≤ cell.size then
        some (base, carve header slack request cell ++ rest)
      else (firstFit request (after header base cell) rest).map fun found ↦
        (found.1, cell :: found.2)

/-- Mark the cell at a position as free. -/
def markFree (target : ℕ) : ℕ → List Cell → List Cell
  | _, [] => []
  | base, cell :: rest =>
      if base = target then ⟨cell.size, true⟩ :: rest
      else cell :: markFree target (after header base cell) rest

def merge (left right : Cell) : Cell := ⟨left.size + header + right.size, left.free⟩

/-- Merge the free cells that follow a free cell into it. -/
def absorb (cell : Cell) : List Cell → Cell × List Cell
  | [] => (cell, [])
  | next :: rest =>
      if cell.free = true ∧ next.free = true then absorb (merge header cell next) rest
      else (cell, next :: rest)

/-- The coalescing pass from a given current cell. -/
def coalesceFrom (cell : Cell) : List Cell → List Cell
  | [] => [cell]
  | next :: rest =>
      if cell.free = true ∧ next.free = true then coalesceFrom (merge header cell next) rest
      else cell :: coalesceFrom next rest

def coalesce : List Cell → List Cell
  | [] => []
  | cell :: rest => coalesceFrom header cell rest

/-- Return the cell at a position to the free space and coalesce. -/
def release (target base : ℕ) (cells : List Cell) : List Cell :=
  coalesce header (markFree header target base cells)

/-! ## Positions -/

variable {header slack}

@[simp] theorem extent_append (left right : List Cell) :
    extent header (left ++ right) = extent header left + extent header right := by
  induction left with
  | nil => simp [extent]
  | cons cell rest ih => simp [extent, ih]; ring

@[simp] theorem placed_append (base : ℕ) (left right : List Cell) :
    placed header base (left ++ right) =
      placed header base left ++ placed header (base + extent header left) right := by
  induction left generalizing base with
  | nil => simp [placed, extent]
  | cons cell rest ih => simp [placed, extent, ih, after, Nat.add_assoc]

@[simp] theorem inUse_append (base : ℕ) (left right : List Cell) :
    inUse header base (left ++ right) =
      inUse header base left ++ inUse header (base + extent header left) right := by
  simp [inUse]

theorem inUse_cons (base : ℕ) (cell : Cell) (rest : List Cell) :
    inUse header base (cell :: rest) =
      (if cell.free then [] else [(base, cell)]) ++ inUse header (after header base cell) rest := by
  cases hfree : cell.free <;> simp [inUse, placed, hfree]

theorem mem_inUse {base position : ℕ} {cell : Cell} {cells : List Cell} :
    (position, cell) ∈ inUse header base cells ↔
      (position, cell) ∈ placed header base cells ∧ cell.free = false := by
  simp [inUse]

/-- A placed cell splits the list at its position. -/
theorem exists_split_of_mem_placed {base position : ℕ} {cell : Cell} {cells : List Cell}
    (h : (position, cell) ∈ placed header base cells) :
    ∃ left right, cells = left ++ cell :: right ∧ position = base + extent header left := by
  induction cells generalizing base with
  | nil => simp [placed] at h
  | cons first rest ih =>
    simp only [placed, List.mem_cons, Prod.mk.injEq] at h
    rcases h with ⟨rfl, rfl⟩ | h
    · exact ⟨[], rest, rfl, by simp [extent]⟩
    · obtain ⟨left, right, rfl, hposition⟩ := ih h
      refine ⟨first :: left, right, rfl, ?_⟩
      simp only [after, extent] at hposition ⊢
      omega

/-- Each header takes room, so the list is short. -/
theorem length_mul_le_extent (cells : List Cell) : cells.length * header ≤ extent header cells := by
  induction cells with
  | nil => simp
  | cons cell rest ih =>
    simp only [List.length_cons, extent, Nat.add_mul, Nat.one_mul]
    omega

theorem placed_bounds {base position : ℕ} {cell : Cell} {cells : List Cell}
    (h : (position, cell) ∈ placed header base cells) :
    base ≤ position ∧ position + header + cell.size ≤ base + extent header cells := by
  induction cells generalizing base with
  | nil => simp [placed] at h
  | cons first rest ih =>
    simp only [placed, List.mem_cons, Prod.mk.injEq] at h
    simp only [extent]
    rcases h with ⟨rfl, rfl⟩ | h
    · omega
    · have hrest := ih h
      simp only [after] at hrest
      omega

/-- Two placed cells are the same cell or do not overlap. -/
theorem placed_disjoint {base first second : ℕ} {left right : Cell} {cells : List Cell}
    (hleft : (first, left) ∈ placed header base cells)
    (hright : (second, right) ∈ placed header base cells) :
    (first = second ∧ left = right) ∨ first + header + left.size ≤ second ∨
      second + header + right.size ≤ first := by
  induction cells generalizing base with
  | nil => simp [placed] at hleft
  | cons cell rest ih =>
    simp only [placed, List.mem_cons, Prod.mk.injEq] at hleft hright
    rcases hleft with ⟨rfl, rfl⟩ | hleft <;> rcases hright with ⟨rfl, rfl⟩ | hright
    · exact .inl ⟨rfl, rfl⟩
    · have hbounds := placed_bounds hright
      simp only [after] at hbounds
      omega
    · have hbounds := placed_bounds hleft
      simp only [after] at hbounds
      omega
    · exact ih hleft hright

/-- With a nonempty header a position determines its cell. -/
theorem placed_unique (hheader : 0 < header) {base position : ℕ} {left right : Cell}
    {cells : List Cell} (hleft : (position, left) ∈ placed header base cells)
    (hright : (position, right) ∈ placed header base cells) : left = right := by
  rcases placed_disjoint hleft hright with ⟨_, h⟩ | h | h
  · exact h
  · omega
  · omega

/-! ## Extent -/

theorem extent_carve (hslack : header ≤ slack) (request : ℕ) (cell : Cell) :
    extent header (carve header slack request cell) = header + cell.size := by
  unfold carve
  split
  · simp only [extent]
    omega
  · simp [extent]

theorem extent_firstFit (hslack : header ≤ slack) {request base position : ℕ}
    {cells next : List Cell}
    (h : firstFit header slack request base cells = some (position, next)) :
    extent header next = extent header cells := by
  induction cells generalizing base position next with
  | nil => simp [firstFit] at h
  | cons cell rest ih =>
    simp only [firstFit] at h
    split at h
    · obtain ⟨rfl, rfl⟩ := Prod.mk.inj (Option.some.inj h)
      rw [extent_append, extent_carve hslack, extent]
    · obtain ⟨found, hfound, hpair⟩ := Option.map_eq_some_iff.mp h
      obtain ⟨rfl, rfl⟩ := Prod.mk.inj hpair
      simp only [extent, ih hfound]

@[simp] theorem extent_markFree (target base : ℕ) (cells : List Cell) :
    extent header (markFree header target base cells) = extent header cells := by
  induction cells generalizing base with
  | nil => rfl
  | cons cell rest ih =>
    simp only [markFree]
    split
    · rfl
    · simp only [extent, ih]

@[simp] theorem extent_coalesceFrom (cell : Cell) (rest : List Cell) :
    extent header (coalesceFrom header cell rest) = header + cell.size + extent header rest := by
  induction rest generalizing cell with
  | nil => rfl
  | cons next rest ih =>
    simp only [coalesceFrom]
    split
    · rw [ih]
      simp only [merge, extent]
      omega
    · simp only [extent, ih]

@[simp] theorem extent_coalesce (cells : List Cell) :
    extent header (coalesce header cells) = extent header cells := by
  cases cells with
  | nil => rfl
  | cons cell rest => simp [coalesce, extent]

@[simp] theorem extent_release (target base : ℕ) (cells : List Cell) :
    extent header (release header target base cells) = extent header cells := by
  simp [release]

/-! ## What allocation does -/

/-- Inversion of first fit: which cell was taken and what replaced it. -/
theorem firstFit_eq_some {request base position : ℕ} {cells next : List Cell}
    (h : firstFit header slack request base cells = some (position, next)) :
    ∃ left cell right, cells = left ++ cell :: right ∧ position = base + extent header left ∧
      (∀ other ∈ left, ¬ (other.free = true ∧ request ≤ other.size)) ∧
      cell.free = true ∧ request ≤ cell.size ∧
      next = left ++ carve header slack request cell ++ right := by
  induction cells generalizing base position next with
  | nil => simp [firstFit] at h
  | cons first rest ih =>
    simp only [firstFit] at h
    split at h
    · rename_i hfits
      obtain ⟨rfl, rfl⟩ := Prod.mk.inj (Option.some.inj h)
      exact ⟨[], first, rest, rfl, by simp [extent], by simp, hfits.1, hfits.2, rfl⟩
    · rename_i hskip
      obtain ⟨found, hfound, hpair⟩ := Option.map_eq_some_iff.mp h
      obtain ⟨rfl, rfl⟩ := Prod.mk.inj hpair
      obtain ⟨left, cell, right, rfl, hposition, hleft, hfree, hsize, hnext⟩ := ih hfound
      refine ⟨first :: left, cell, right, rfl, ?_, ?_, hfree, hsize, by rw [hnext]; rfl⟩
      · rw [hposition]
        simp only [after, extent]
        omega
      · intro other hother
        rcases List.mem_cons.mp hother with rfl | hother
        · exact hskip
        · exact hleft other hother

/-- The payload that `carve` hands out. -/
def granted (slack request : ℕ) (cell : Cell) : ℕ :=
  if request + slack ≤ cell.size then request else cell.size

theorem le_granted {request : ℕ} {cell : Cell} (h : request ≤ cell.size) :
    request ≤ granted slack request cell := by
  unfold granted
  split <;> omega

theorem inUse_carve (request base : ℕ) (cell : Cell) :
    inUse header base (carve header slack request cell) =
      [(base, ⟨granted slack request cell, false⟩)] := by
  unfold carve granted
  split <;> simp [inUse, placed]

/-- First fit adds one cell in use, where a free cell was, and keeps the others. -/
theorem mem_inUse_firstFit (hslack : header ≤ slack) {request base position : ℕ}
    {cells next : List Cell} (h : firstFit header slack request base cells = some (position, next)) :
    ∃ cell, (position, cell) ∈ placed header base cells ∧ cell.free = true ∧
      request ≤ cell.size ∧ ∀ entry, entry ∈ inUse header base next ↔
        entry = (position, ⟨granted slack request cell, false⟩) ∨
          entry ∈ inUse header base cells := by
  obtain ⟨left, cell, right, rfl, rfl, -, hfree, hsize, rfl⟩ := firstFit_eq_some h
  refine ⟨cell, by simp [placed], hfree, hsize, fun entry ↦ ?_⟩
  simp only [inUse_append, inUse_cons, hfree, if_true, List.nil_append, List.mem_append,
    inUse_carve, List.mem_singleton, extent_append, extent_carve hslack, after, Nat.add_assoc]
  tauto

theorem separated_append_cons {left right : List Cell} {cell : Cell} :
    Separated (left ++ cell :: right) ↔ Separated (left ++ [cell]) ∧ Separated (cell :: right) := by
  unfold Separated
  rw [List.isChain_split]

/-- A cell in use may be put in the place of any cell. -/
theorem Separated.replace_used {left right : List Cell} {cell : Cell} (size : ℕ)
    (h : Separated (left ++ cell :: right)) : Separated (left ++ ⟨size, false⟩ :: right) := by
  obtain ⟨hleft, hright⟩ := separated_append_cons.mp h
  refine separated_append_cons.mpr ⟨?_, ?_⟩
  · unfold Separated at hleft ⊢
    rw [List.isChain_append] at hleft ⊢
    exact ⟨hleft.1, by simp, by simp⟩
  · unfold Separated at hright ⊢
    rw [List.isChain_cons] at hright ⊢
    exact ⟨by simp, hright.2⟩

/-- Splitting a free cell keeps neighbours separated: the cell behind it was not free. -/
theorem Separated.firstFit {request base position : ℕ} {cells next : List Cell}
    (h : Separated cells) (hfit : firstFit header slack request base cells = some (position, next)) :
    Separated next := by
  obtain ⟨left, cell, right, rfl, -, -, hfree, -, rfl⟩ := firstFit_eq_some hfit
  have hused := h.replace_used (granted slack request cell)
  unfold carve granted at *
  split at hused
  · rename_i hsplit
    rw [if_pos hsplit]
    obtain ⟨hleft, -⟩ := separated_append_cons.mp hused
    obtain ⟨-, hright⟩ := separated_append_cons.mp h
    rw [List.append_assoc, List.cons_append, List.cons_append, List.nil_append]
    refine separated_append_cons.mpr ⟨hleft, ?_⟩
    unfold Separated at hright ⊢
    rw [List.isChain_cons] at hright
    rw [List.isChain_cons, List.isChain_cons]
    refine ⟨by simp, ?_, hright.2⟩
    simpa [hfree] using hright.1
  · rename_i hkeep
    rw [if_neg hkeep]
    simpa using hused

/-! ## What release does -/

theorem absorb_spec (header : ℕ) (cell : Cell) (rest : List Cell) :
    (absorb header cell rest).1.free = cell.free ∧
      coalesceFrom header cell rest =
        (absorb header cell rest).1 :: coalesce header (absorb header cell rest).2 := by
  induction rest generalizing cell with
  | nil => simp [absorb, coalesceFrom, coalesce]
  | cons next rest ih =>
    by_cases hboth : cell.free = true ∧ next.free = true
    · simpa only [absorb, coalesceFrom, if_pos hboth, merge] using ih (merge header cell next)
    · simp [absorb, coalesceFrom, if_neg hboth, coalesce]

theorem extent_absorb (cell : Cell) (rest : List Cell) :
    header + (absorb header cell rest).1.size + extent header (absorb header cell rest).2 =
      header + cell.size + extent header rest := by
  have hpass := congrArg (extent header) (absorb_spec header cell rest).2
  simpa [extent] using hpass.symm

theorem absorb_length_le (cell : Cell) (rest : List Cell) :
    (absorb header cell rest).2.length ≤ rest.length := by
  induction rest generalizing cell with
  | nil => simp [absorb]
  | cons next rest ih =>
    simp only [absorb]
    split
    · exact (ih _).trans (by simp)
    · simp

/-- The pass starts with a cell that is free exactly when the current cell is. -/
theorem head_coalesceFrom_free (header : ℕ) (cell : Cell) (rest : List Cell) :
    ∃ first tail, coalesceFrom header cell rest = first :: tail ∧ first.free = cell.free := by
  obtain ⟨hfree, hpass⟩ := absorb_spec header cell rest
  exact ⟨_, _, hpass, hfree⟩

theorem separated_coalesceFrom (cell : Cell) (rest : List Cell) :
    Separated (coalesceFrom header cell rest) := by
  induction rest generalizing cell with
  | nil => simp [coalesceFrom, Separated]
  | cons next rest ih =>
    simp only [coalesceFrom]
    split
    · exact ih _
    · rename_i hkeep
      obtain ⟨first, tail, hpass, hfree⟩ := head_coalesceFrom_free header next rest
      have htail := ih next
      rw [hpass] at htail ⊢
      unfold Separated at htail ⊢
      refine List.isChain_cons_cons.mpr ⟨?_, htail⟩
      rwa [hfree]

/-- A full pass leaves no two free neighbours, whatever the list was. -/
theorem separated_coalesce (cells : List Cell) : Separated (coalesce header cells) := by
  cases cells with
  | nil => simp [coalesce, Separated]
  | cons cell rest => exact separated_coalesceFrom cell rest

/-- Merging free cells moves no cell in use. -/
theorem inUse_coalesceFrom (base : ℕ) (cell : Cell) (rest : List Cell) :
    inUse header base (coalesceFrom header cell rest) = inUse header base (cell :: rest) := by
  induction rest generalizing base cell with
  | nil => rfl
  | cons next rest ih =>
    simp only [coalesceFrom]
    split
    · rename_i hboth
      rw [ih]
      simp only [inUse_cons, merge, after, hboth.1, hboth.2, if_true, List.nil_append]
      congr 1
      omega
    · rw [inUse_cons, ih, ← inUse_cons]

@[simp] theorem inUse_coalesce (base : ℕ) (cells : List Cell) :
    inUse header base (coalesce header cells) = inUse header base cells := by
  cases cells with
  | nil => rfl
  | cons cell rest => exact inUse_coalesceFrom base cell rest

/-- Marking splits the list at the marked cell. -/
theorem markFree_split (hheader : 0 < header) (base : ℕ) (left right : List Cell) (cell : Cell) :
    markFree header (base + extent header left) base (left ++ cell :: right) =
      left ++ ⟨cell.size, true⟩ :: right := by
  induction left generalizing base with
  | nil => simp [markFree, extent]
  | cons first left ih =>
    have hne : base ≠ base + extent header (first :: left) := by
      simp only [extent]
      omega
    have htarget : base + extent header (first :: left) =
        after header base first + extent header left := by
      simp only [after, extent]
      omega
    simp only [List.cons_append, markFree, if_neg hne]
    rw [htarget, ih]

/-- Release removes exactly the released cell from the cells in use. -/
theorem mem_inUse_release (hheader : 0 < header) {base target : ℕ} {cell : Cell}
    {cells : List Cell} (h : (target, cell) ∈ placed header base cells) (entry : ℕ × Cell) :
    entry ∈ inUse header base (release header target base cells) ↔
      entry ∈ inUse header base cells ∧ entry.1 ≠ target := by
  obtain ⟨left, right, rfl, rfl⟩ := exists_split_of_mem_placed h
  rw [release, inUse_coalesce, markFree_split hheader]
  obtain ⟨position, other⟩ := entry
  simp only [inUse_append, inUse_cons, List.mem_append, after]
  have hleft : (position, other) ∈ inUse header base left →
      position ≠ base + extent header left := by
    intro hmem
    have hbounds := placed_bounds (mem_inUse.mp hmem).1
    omega
  have hright : (position, other) ∈
      inUse header (base + extent header left + header + cell.size) right →
        position ≠ base + extent header left := by
    intro hmem
    have hbounds := placed_bounds (mem_inUse.mp hmem).1
    omega
  cases cell.free <;> simp <;> tauto

/-! ## Granularity -/

/-- Every size is a multiple of the granule. -/
def Granular (granule : ℕ) (cells : List Cell) : Prop := ∀ cell ∈ cells, granule ∣ cell.size

theorem Granular.dvd_extent {granule : ℕ} {cells : List Cell} (h : Granular granule cells)
    (hheader : granule ∣ header) : granule ∣ extent header cells := by
  induction cells with
  | nil => exact dvd_zero granule
  | cons cell rest ih =>
    have hrest := ih fun other hother ↦ h other (by simp [hother])
    exact Nat.dvd_add (Nat.dvd_add hheader (h cell (by simp))) hrest

theorem Granular.firstFit {granule request base position : ℕ} {cells next : List Cell}
    (h : Granular granule cells) (hheader : granule ∣ header) (hrequest : granule ∣ request)
    (hfit : firstFit header slack request base cells = some (position, next)) :
    Granular granule next := by
  obtain ⟨left, cell, right, rfl, -, -, -, -, rfl⟩ := firstFit_eq_some hfit
  intro other hother
  have hcell : granule ∣ cell.size := h cell (by simp)
  have hothers (kept : Cell) (hkept : kept ∈ left ∨ kept ∈ right) : granule ∣ kept.size := by
    rcases hkept with hkept | hkept
    · exact h kept (by simp [hkept])
    · exact h kept (by simp [hkept])
  unfold carve at hother
  split at hother
  · simp only [List.append_assoc, List.mem_append, List.mem_cons, List.not_mem_nil, or_false] at hother
    rcases hother with hother | (rfl | rfl) | hother
    · exact hothers other (.inl hother)
    · exact hrequest
    · exact Nat.dvd_sub (Nat.dvd_sub hcell hrequest) hheader
    · exact hothers other (.inr hother)
  · simp only [List.append_assoc, List.mem_append, List.mem_singleton] at hother
    rcases hother with hother | rfl | hother
    · exact hothers other (.inl hother)
    · exact hcell
    · exact hothers other (.inr hother)

theorem Granular.markFree {granule base : ℕ} {cells : List Cell}
    (h : Granular granule cells) (header target : ℕ) :
    Granular granule (markFree header target base cells) := by
  induction cells generalizing base with
  | nil => simpa [Cells.markFree] using h
  | cons cell rest ih =>
    have hcell : granule ∣ cell.size := h cell (by simp)
    have hrest : Granular granule rest := fun other hother ↦ h other (by simp [hother])
    intro other hother
    simp only [Cells.markFree] at hother
    split at hother <;> rcases List.mem_cons.mp hother with rfl | hother
    · exact hcell
    · exact hrest other hother
    · exact hcell
    · exact ih hrest other hother

theorem Granular.coalesceFrom {granule : ℕ} {cell : Cell} {rest : List Cell}
    (hheader : granule ∣ header) (hcell : granule ∣ cell.size) (hrest : Granular granule rest) :
    Granular granule (coalesceFrom header cell rest) := by
  induction rest generalizing cell with
  | nil => simpa [Cells.coalesceFrom, Granular] using hcell
  | cons next rest ih =>
    have hnext : granule ∣ next.size := hrest next (by simp)
    have htail : Granular granule rest := fun other hother ↦ hrest other (by simp [hother])
    simp only [Cells.coalesceFrom]
    split
    · exact ih (Nat.dvd_add (Nat.dvd_add hcell hheader) hnext) htail
    · intro other hother
      rcases List.mem_cons.mp hother with rfl | hother
      · exact hcell
      · exact ih hnext htail other hother

theorem Granular.release {granule target base : ℕ} {cells : List Cell}
    (h : Granular granule cells) (hheader : granule ∣ header) :
    Granular granule (release header target base cells) := by
  have hmarked : Granular granule (Cells.markFree header target base cells) :=
    h.markFree header target
  unfold Cells.release
  cases hcells : Cells.markFree header target base cells with
  | nil => simp [coalesce, Granular]
  | cons cell rest =>
    rw [hcells] at hmarked
    exact Granular.coalesceFrom hheader (hmarked cell (by simp))
      fun other hother ↦ hmarked other (by simp [hother])

end Cells

end Foundation
