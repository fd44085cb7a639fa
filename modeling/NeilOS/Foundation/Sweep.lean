import Mathlib.Data.List.Range
import Mathlib.Logic.Function.Basic
import Mathlib.Tactic.Common

/-!
# Counting loops that may fault

A loop over `0, …, count - 1` whose body may fault, and two of them nested, row by row. The rules
give the final state from a path: the state the loop is in before each iteration. A body that
overwrites one cell of a grid has a path of its own, the grid overwritten in reading order.
-/

namespace Foundation

section Loops

variable {State : Type}

/-- `body 0`, then `body 1`, and so on up to `count - 1`. -/
def countUp (count : ℕ) (body : ℕ → State → Option State) (state : State) : Option State :=
  (List.range count).foldlM (fun state index ↦ body index state) state

theorem countUp_eq {count : ℕ} {body : ℕ → State → Option State} (path : ℕ → State)
    (hstep : ∀ index < count, body index (path index) = some (path (index + 1))) :
    countUp count body (path 0) = some (path count) := by
  induction count with
  | zero => rfl
  | succ count ih =>
    have hfirst := ih fun index hindex ↦ hstep index (by omega)
    unfold countUp at hfirst ⊢
    rw [List.range_succ, List.foldlM_append, hfirst]
    simpa using hstep count (by omega)

/-- Every column of row `0`, then every column of row `1`, and so on. -/
def sweep (rows columns : ℕ) (body : ℕ → ℕ → State → Option State) : State → Option State :=
  countUp rows fun row ↦ countUp columns (body row)

theorem sweep_eq {rows columns : ℕ} {body : ℕ → ℕ → State → Option State} (path : ℕ → ℕ → State)
    (hrow : ∀ row < rows, path row columns = path (row + 1) 0)
    (hstep : ∀ row < rows, ∀ column < columns,
      body row column (path row column) = some (path row (column + 1))) :
    sweep rows columns body (path 0 0) = some (path rows 0) := by
  refine countUp_eq (fun row ↦ path row 0) fun row hlt ↦ ?_
  rw [← hrow row hlt]
  exact countUp_eq (path row) (hstep row hlt)

attribute [irreducible] countUp sweep

end Loops

/-- Overwriting the cells of a list of indices, one after the other. -/
theorem foldl_update {Index Cell : Type} [DecidableEq Index] (value : Index → Cell) (indices : List Index)
    (initial : Index → Cell) (index : Index) :
    indices.foldl (fun cells other ↦ Function.update cells other (value other)) initial index =
      if index ∈ indices then value index else initial index := by
  induction indices generalizing initial with
  | nil => rfl
  | cons first rest ih =>
    rw [List.foldl_cons, ih]
    by_cases hrest : index ∈ rest
    · rw [if_pos hrest, if_pos (List.mem_cons_of_mem first hrest)]
    · rw [if_neg hrest]
      by_cases hfirst : index = first
      · rw [hfirst, Function.update_self, if_pos List.mem_cons_self]
      · have hnot : index ∉ first :: rest := by
          rw [List.mem_cons]
          exact fun h ↦ h.elim hfirst hrest
        rw [Function.update_of_ne hfirst, if_neg hnot]

section Grids

variable {Cell State : Type}

/-- One cell of a grid replaced. -/
def setCell (grid : ℕ → ℕ → Cell) (row column : ℕ) (cell : Cell) : ℕ → ℕ → Cell :=
  fun y x ↦ if y = row ∧ x = column then cell else grid y x

/-- The first `columns` cells of every row, up to `(row, column)` in reading order, taken from `new`. -/
def overwritten (columns : ℕ) (new old : ℕ → ℕ → Cell) (row column : ℕ) : ℕ → ℕ → Cell :=
  fun y x ↦ if x < columns ∧ (y < row ∨ y = row ∧ x < column) then new y x else old y x

theorem overwritten_of_le {columns row column y x : ℕ} {new old : ℕ → ℕ → Cell} (hy : row ≤ y)
    (hx : y = row → column ≤ x) : overwritten columns new old row column y x = old y x := by
  rw [overwritten, if_neg (by omega)]

theorem setCell_overwritten {columns row column : ℕ} {new old : ℕ → ℕ → Cell}
    (hcolumn : column < columns) :
    setCell (overwritten columns new old row column) row column (new row column) =
      overwritten columns new old row (column + 1) := by
  funext y x
  unfold setCell overwritten
  by_cases hcell : y = row ∧ x = column
  · obtain ⟨rfl, rfl⟩ := hcell
    rw [if_pos ⟨rfl, rfl⟩, if_pos (by omega)]
  · rw [if_neg hcell]
    exact if_congr (by omega) rfl rfl

/-- A sweep whose body replaces the current cell by its value in `new`. -/
theorem sweep_overwrite {rows columns : ℕ} {body : ℕ → ℕ → State → Option State}
    (withGrid : (ℕ → ℕ → Cell) → State) (new old : ℕ → ℕ → Cell)
    (hbody : ∀ row < rows, ∀ column < columns,
      body row column (withGrid (overwritten columns new old row column)) =
        some (withGrid (setCell (overwritten columns new old row column) row column
          (new row column)))) :
    sweep rows columns body (withGrid old) =
      some (withGrid fun y x ↦ if y < rows ∧ x < columns then new y x else old y x) := by
  have hstart : overwritten columns new old 0 0 = old := by
    funext y x
    exact overwritten_of_le (by omega) (by omega)
  have hrow (row : ℕ) : overwritten columns new old row columns =
      overwritten columns new old (row + 1) 0 := by
    funext y x
    exact if_congr (by omega) rfl rfl
  have hend : overwritten columns new old rows 0 =
      fun y x ↦ if y < rows ∧ x < columns then new y x else old y x := by
    funext y x
    exact if_congr (by omega) rfl rfl
  have hsweep : sweep rows columns body (withGrid (overwritten columns new old 0 0)) =
      some (withGrid (overwritten columns new old rows 0)) := by
    refine sweep_eq (fun row column ↦ withGrid (overwritten columns new old row column))
      (fun row _ ↦ congrArg withGrid (hrow row)) fun row hlt column hcolumn ↦ ?_
    rw [hbody row hlt column hcolumn, setCell_overwritten hcolumn]
  rwa [hstart, hend] at hsweep

end Grids

end Foundation
