import NeilOS.Foundation.Cells

/-!
# Free space seen from the cells in use

A gap is a maximal interval that no cell in use covers. In a tiling without adjacent free cells the
gaps are exactly the free cells, headers included. So first fit over the cells finds the lowest gap
that is large enough, and such a tiling is determined by its extent and its cells in use.
-/

namespace Foundation

/-- A maximal interval of `[start, stop)` of which nothing is covered. -/
structure Gap (covered : ℕ → Prop) (start stop low high : ℕ) : Prop where
  start_le : start ≤ low
  low_lt : low < high
  le_stop : high ≤ stop
  uncovered : ∀ target, low ≤ target → target < high → ¬ covered target
  left_maximal : low = start ∨ covered (low - 1)
  right_maximal : high = stop ∨ covered high

theorem Gap.high_unique {covered : ℕ → Prop} {start stop low first second : ℕ}
    (hfirst : Gap covered start stop low first) (hsecond : Gap covered start stop low second) :
    first = second := by
  have hle {left right : ℕ} (hleft : Gap covered start stop low left)
      (hright : Gap covered start stop low right) : right ≤ left := by
    by_contra hlt
    rcases hleft.right_maximal with rfl | hcovered
    · exact hlt hright.le_stop
    · exact hright.uncovered left hleft.low_lt.le (Nat.lt_of_not_le hlt) hcovered
  exact le_antisymm (hle hsecond hfirst) (hle hfirst hsecond)

namespace Cells

variable {header slack : ℕ}

/-- The positions that the cells in use take up, headers included. -/
def Covered (header base : ℕ) (cells : List Cell) (target : ℕ) : Prop :=
  ∃ position cell, (position, cell) ∈ inUse header base cells ∧ position ≤ target ∧
    target < position + header + cell.size

/-- The cells leave nothing out. -/
theorem exists_placed_of_lt {base target : ℕ} {cells : List Cell} (hlow : base ≤ target)
    (hhigh : target < base + extent header cells) :
    ∃ position cell, (position, cell) ∈ placed header base cells ∧ position ≤ target ∧
      target < position + header + cell.size := by
  induction cells generalizing base with
  | nil =>
    simp only [extent] at hhigh
    omega
  | cons first rest ih =>
    simp only [extent] at hhigh
    by_cases hfirst : target < base + header + first.size
    · exact ⟨base, first, by simp [placed], hlow, hfirst⟩
    · have hbase : after header base first ≤ target := Nat.le_of_not_lt hfirst
      have hrest : target < after header base first + extent header rest := by
        simp only [after]
        omega
      obtain ⟨position, cell, hplaced, hrange⟩ := ih hbase hrest
      exact ⟨position, cell, by simp [placed, hplaced], hrange⟩

/-- Nothing inside a free cell is covered. -/
theorem not_covered_of_free {base position target : ℕ} {cell : Cell} {cells : List Cell}
    (hplaced : (position, cell) ∈ placed header base cells) (hfree : cell.free = true)
    (hlow : position ≤ target) (hhigh : target < position + header + cell.size) :
    ¬ Covered header base cells target := by
  rintro ⟨place, used, hused, hplace, hend⟩
  obtain ⟨hother, hinUse⟩ := mem_inUse.mp hused
  rcases placed_disjoint hplaced hother with ⟨-, rfl⟩ | hbefore | hafter
  · exact Bool.noConfusion (hinUse.symm.trans hfree)
  · omega
  · omega

theorem covered_append_cons {base target : ℕ} {left right : List Cell} {cell : Cell}
    (hused : cell.free = false) (hlow : base + extent header left ≤ target)
    (hhigh : target < base + extent header left + header + cell.size) :
    Covered header base (left ++ cell :: right) target := by
  refine ⟨base + extent header left, cell, mem_inUse.mpr ⟨?_, hused⟩, hlow, hhigh⟩
  simp [placed]

theorem Separated.not_both {left right : List Cell} {first second : Cell}
    (h : Separated (left ++ first :: second :: right)) :
    ¬ (first.free = true ∧ second.free = true) := by
  have hpair := (separated_append_cons.mp h).2
  unfold Separated at hpair
  exact (List.isChain_cons_cons.mp hpair).1

/-- A free cell is a gap: its neighbours, if there are any, are in use. -/
theorem Separated.gap_of_free (hheader : 0 < header) {base position : ℕ} {cell : Cell}
    {cells : List Cell} (h : Separated cells) (hplaced : (position, cell) ∈ placed header base cells)
    (hfree : cell.free = true) :
    Gap (Covered header base cells) base (base + extent header cells) position
      (position + header + cell.size) := by
  have hbounds := placed_bounds hplaced
  refine ⟨hbounds.1, by omega, hbounds.2,
    fun target hlow hhigh ↦ not_covered_of_free hplaced hfree hlow hhigh, ?_, ?_⟩
  · obtain ⟨left, right, rfl, rfl⟩ := exists_split_of_mem_placed hplaced
    rcases List.eq_nil_or_concat left with rfl | ⟨before, last, rfl⟩
    · exact .inl (by simp [extent])
    · rw [List.concat_eq_append, List.append_assoc, List.singleton_append] at h ⊢
      have hlast : last.free = false := by simpa [hfree] using h.not_both
      simp only [extent_append, extent, Nat.add_zero]
      exact .inr (covered_append_cons hlast (by omega) (by omega))
  · obtain ⟨left, right, rfl, rfl⟩ := exists_split_of_mem_placed hplaced
    cases right with
    | nil => exact .inl (by simp [extent]; omega)
    | cons next right =>
      have hnext : next.free = false := by simpa [hfree] using h.not_both
      have hend : base + extent header left + header + cell.size =
          base + extent header (left ++ [cell]) := by
        simp only [extent_append, extent]
        omega
      rw [List.append_cons left cell (next :: right)]
      exact .inr (covered_append_cons hnext hend.ge (by omega))

/-- The gaps of a tiling without adjacent free cells are its free cells. -/
theorem Separated.gap_iff (hheader : 0 < header) {base low high : ℕ} {cells : List Cell}
    (h : Separated cells) :
    Gap (Covered header base cells) base (base + extent header cells) low high ↔
      ∃ cell, (low, cell) ∈ placed header base cells ∧ cell.free = true ∧
        high = low + header + cell.size := by
  constructor
  · intro hgap
    obtain ⟨position, cell, hplaced, hlow, hhigh⟩ :=
      exists_placed_of_lt hgap.start_le (hgap.low_lt.trans_le hgap.le_stop)
    have hfree : cell.free = true := by
      by_contra hused
      exact hgap.uncovered low le_rfl hgap.low_lt
        ⟨position, cell, mem_inUse.mpr ⟨hplaced, by simpa using hused⟩, hlow, hhigh⟩
    -- A gap that began inside the cell could be extended to the left.
    have hstart : position = low := by
      by_contra hne
      rcases hgap.left_maximal with rfl | hcovered
      · exact hne (le_antisymm hlow (placed_bounds hplaced).1)
      · exact not_covered_of_free hplaced hfree (by omega) (by omega) hcovered
    subst hstart
    exact ⟨cell, hplaced, hfree, hgap.high_unique (h.gap_of_free hheader hplaced hfree)⟩
  · rintro ⟨cell, hplaced, hfree, rfl⟩
    exact h.gap_of_free hheader hplaced hfree

/-! ## First fit -/

theorem firstFit_eq_none {request base : ℕ} {cells : List Cell} :
    firstFit header slack request base cells = none ↔
      ∀ cell ∈ cells, ¬ (cell.free = true ∧ request ≤ cell.size) := by
  induction cells generalizing base with
  | nil => simp [firstFit]
  | cons first rest ih =>
    simp only [firstFit, List.forall_mem_cons]
    split
    · next hfits => simp [hfits]
    · next hskip => simp only [Option.map_eq_none_iff, ih, hskip, not_false_eq_true, true_and]

/-- First fit finds nothing exactly if no gap is large enough. -/
theorem Separated.firstFit_eq_none_iff (hheader : 0 < header) {request base : ℕ} {cells : List Cell}
    (h : Separated cells) :
    Cells.firstFit header slack request base cells = none ↔
      ∀ low high, Gap (Covered header base cells) base (base + extent header cells) low high →
        high - low < header + request := by
  rw [firstFit_eq_none]
  constructor
  · intro hnone low high hgap
    obtain ⟨cell, hplaced, hfree, rfl⟩ := (h.gap_iff hheader).mp hgap
    obtain ⟨left, right, rfl, -⟩ := exists_split_of_mem_placed hplaced
    have hsmall := hnone cell (by simp)
    rw [not_and] at hsmall
    have hsize := hsmall hfree
    omega
  · intro hsmall cell hcell hfits
    obtain ⟨left, right, rfl⟩ := List.append_of_mem hcell
    have hplaced : (base + extent header left, cell) ∈ placed header base (left ++ cell :: right) := by
      simp [placed]
    have hgap := hsmall _ _ (h.gap_of_free hheader hplaced hfits.1)
    omega

/-- First fit takes the lowest gap that is large enough. -/
theorem Separated.firstFit_lowest (hheader : 0 < header) {request base position : ℕ}
    {cells next : List Cell} (h : Separated cells)
    (hfit : Cells.firstFit header slack request base cells = some (position, next)) {low high : ℕ}
    (hgap : Gap (Covered header base cells) base (base + extent header cells) low high)
    (hlarge : header + request ≤ high - low) : position ≤ low := by
  obtain ⟨left, cell, right, rfl, rfl, hleft, -, -, -⟩ := firstFit_eq_some hfit
  obtain ⟨other, hplaced, hfree, rfl⟩ := (h.gap_iff hheader).mp hgap
  rw [placed_append, List.mem_append] at hplaced
  rcases hplaced with hbefore | hbehind
  · obtain ⟨before, after, rfl, -⟩ := exists_split_of_mem_placed hbefore
    exact absurd ⟨hfree, by omega⟩ (hleft other (by simp))
  · exact (placed_bounds hbehind).1

/-! ## Tilings are determined by their cells in use -/

theorem eq_of_placed_iff (hheader : 0 < header) {base : ℕ} {first second : List Cell}
    (h : ∀ entry, entry ∈ placed header base first ↔ entry ∈ placed header base second) :
    first = second := by
  induction first generalizing base second with
  | nil =>
    cases second with
    | nil => rfl
    | cons cell rest => exact absurd ((h (base, cell)).mpr (by simp [placed])) (by simp [placed])
  | cons cell rest ih =>
    have hhead : (base, cell) ∈ placed header base second := (h _).mp (by simp [placed])
    cases second with
    | nil => simp [placed] at hhead
    | cons other tail =>
      obtain rfl := placed_unique hheader hhead (List.mem_cons_self ..)
      -- The entries of the tails are the ones behind the common first cell.
      have hbehind (entry : ℕ × Cell) (cells : List Cell) :
          entry ∈ placed header (after header base cell) cells ↔
            entry ∈ placed header base (cell :: cells) ∧ entry ≠ (base, cell) := by
        simp only [placed, List.mem_cons]
        constructor
        · intro hmem
          refine ⟨.inr hmem, ?_⟩
          rintro rfl
          have hbounds := (placed_bounds hmem).1
          simp only [after] at hbounds
          omega
        · rintro ⟨heq | hmem, hne⟩
          · exact absurd heq hne
          · exact hmem
      have htails (entry : ℕ × Cell) : entry ∈ placed header (after header base cell) rest ↔
          entry ∈ placed header (after header base cell) tail := by
        rw [hbehind, hbehind, h]
      rw [ih htails]

theorem Separated.mem_free_iff (hheader : 0 < header) {base position size : ℕ} {cells : List Cell}
    (h : Separated cells) :
    (position, ⟨size, true⟩) ∈ placed header base cells ↔
      Gap (Covered header base cells) base (base + extent header cells) position
        (position + header + size) := by
  rw [h.gap_iff hheader]
  constructor
  · exact fun hplaced ↦ ⟨⟨size, true⟩, hplaced, rfl, rfl⟩
  · rintro ⟨⟨other, free⟩, hplaced, hfree, hend⟩
    have hsize : size = other := Nat.add_left_cancel hend
    change free = true at hfree
    rwa [hsize, ← hfree]

/-- Two tilings of one interval without adjacent free cells are equal if they have the same cells in
use. -/
theorem Separated.ext (hheader : 0 < header) {base : ℕ} {first second : List Cell}
    (hfirst : Separated first) (hsecond : Separated second)
    (hextent : extent header first = extent header second)
    (hused : ∀ entry, entry ∈ inUse header base first ↔ entry ∈ inUse header base second) :
    first = second := by
  have hcovered : Covered header base first = Covered header base second := by
    funext target
    simp only [Covered, hused]
  have hplaced (entry : ℕ × Cell) :
      entry ∈ placed header base first ↔ entry ∈ placed header base second := by
    obtain ⟨position, size, free⟩ := entry
    cases free with
    | true => rw [hfirst.mem_free_iff hheader, hsecond.mem_free_iff hheader, hcovered, hextent]
    | false =>
      have hentry := hused (position, ⟨size, false⟩)
      simpa only [mem_inUse, and_true] using hentry
  exact eq_of_placed_iff hheader hplaced

end Cells

end Foundation
