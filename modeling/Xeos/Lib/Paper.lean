import Mathlib.Algebra.GroupWithZero.Nat
import Mathlib.Data.List.GetD

/-!
# Paper

What a terminal prints, without an end: finished rows of at most `cols` cells and a row that is
being printed.  A row is finished by a line feed, or by the cell behind its last column.

A screen of `height` rows shows the end of it.  `place` is the row of the screen that is being
printed, and `line` counts the rows from the first.
-/

namespace Lib

structure Paper (Cell : Type) (cols : Nat) where
  rows : List (List Cell)
  row : List Cell
  rows_fit : ∀ l ∈ rows, l.length ≤ cols
  row_fits : row.length ≤ cols

namespace Paper

variable {Cell : Type} {cols : Nat}

/-- Nothing is printed yet. -/
def empty (Cell : Type) (cols : Nat) : Paper Cell cols :=
  ⟨[], [], fun _ h => (List.not_mem_nil h).elim, Nat.zero_le _⟩

/-- The row is finished. -/
def feed (p : Paper Cell cols) : Paper Cell cols where
  rows := p.rows ++ [p.row]
  row := []
  rows_fit l h := by
    rcases List.mem_append.mp h with h | h
    · exact p.rows_fit l h
    · rw [List.mem_singleton.mp h]
      exact p.row_fits
  row_fits := Nat.zero_le _

/-- A row that is full is finished. -/
def wrap (p : Paper Cell cols) : Paper Cell cols := if p.row.length = cols then p.feed else p

theorem wrap_row_lt (hcols : 0 < cols) (p : Paper Cell cols) : p.wrap.row.length < cols := by
  rw [wrap]
  split
  · exact hcols
  · next h => exact Nat.lt_of_le_of_ne p.row_fits h

/-- A cell is put into the row, or in the next one. -/
def put [NeZero cols] (p : Paper Cell cols) (c : Cell) : Paper Cell cols where
  rows := p.wrap.rows
  row := p.wrap.row ++ [c]
  rows_fit := p.wrap.rows_fit
  row_fits := by
    rw [List.length_append, List.length_singleton]
    exact p.wrap_row_lt (Nat.pos_of_neZero cols)

/-- The row of a number, counted from the first that was printed. -/
def line (p : Paper Cell cols) (j : Nat) : List Cell := (p.rows ++ [p.row]).getD j []

@[simp]
theorem line_length (p : Paper Cell cols) : p.line p.rows.length = p.row := by
  rw [line, List.getD_append_right _ _ _ _ (Nat.le_refl _), Nat.sub_self]
  rfl

theorem line_of_lt {p p' : Paper Cell cols} {j : Nat} (h : p'.rows = p.rows)
    (hj : j < p.rows.length) : p'.line j = p.line j := by
  rw [line, line, h, List.getD_append _ _ _ _ hj, List.getD_append _ _ _ _ hj]

@[simp]
theorem feed_rows_length (p : Paper Cell cols) : p.feed.rows.length = p.rows.length + 1 := by
  rw [feed, List.length_append, List.length_singleton]

theorem feed_line (p : Paper Cell cols) {j : Nat} (hj : j ≤ p.rows.length) :
    p.feed.line j = p.line j :=
  List.getD_append _ _ _ _ (by rw [feed_rows_length]; omega)

/-- The cells in the order in which they were printed. -/
def cells (p : Paper Cell cols) : List Cell := p.rows.flatten ++ p.row

@[simp]
theorem cells_feed (p : Paper Cell cols) : p.feed.cells = p.cells := by
  rw [cells, cells, feed, List.flatten_append, List.flatten_singleton, List.append_nil]

@[simp]
theorem cells_wrap (p : Paper Cell cols) : p.wrap.cells = p.cells := by
  rw [wrap]
  split
  · exact p.cells_feed
  · rfl

/-- Nothing that was printed is lost. -/
theorem cells_put [NeZero cols] (p : Paper Cell cols) (c : Cell) :
    (p.put c).cells = p.cells ++ [c] := by
  rw [← p.cells_wrap, cells, cells, put, List.append_assoc]

/-! ## A screen -/

/-- The row of the screen.  The last row of the screen is for an empty row only: it is there before
the first cell moves it up. -/
def place (height : Nat) (p : Paper Cell cols) : Nat :=
  min p.rows.length (if p.row = [] then height - 1 else height - 2)

/-- The line in a row of the screen, of which the first `pinned` rows do not move. -/
def lineAt (p : Paper Cell cols) (pinned place r : Nat) : Nat :=
  if r < pinned then r else p.rows.length - (place - r)

end Paper

end Lib
