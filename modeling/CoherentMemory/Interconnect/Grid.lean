import CoherentMemory.Overflow

/-!
# Router grids

The routers of a mesh stand in `rows` rows of `columns` columns and are numbered
row by row (`index`). The corners are the cells at the ends of both dimensions:
four, or fewer when a dimension has length one. `computePositions` lists all
positions, the corners last.

A mesh has a controller for each cell, so that its positions are small numbers. A
grid that was given by its dimensions can have more cells than there are numbers of
64 bits; `checkedPositions`, `checkedIndex` and `checkedCorners` are for these.
-/

namespace CoherentMemory.Interconnect

/-- The dimensions of a grid, both positive. -/
structure Grid where
  rows : Nat
  columns : Nat
  rows_pos : 0 < rows
  columns_pos : 0 < columns
deriving DecidableEq

namespace Grid

/-- The grid of the given dimensions, if both are positive. -/
def ofDimensions? (rows columns : Nat) : Option Grid :=
  if h : 0 < rows ∧ 0 < columns then some ⟨rows, columns, h.1, h.2⟩ else none

/-- The number of cells. -/
def positions (g : Grid) : Nat :=
  g.rows * g.columns

/-- The position of a cell, counted row by row. -/
def index (g : Grid) (row column : Nat) : Nat :=
  row * g.columns + column

/-- The first and the last coordinate along a dimension. -/
def ends (length : Nat) : List Nat :=
  if length ≤ 1 then [0] else [0, length - 1]

/-- The positions of the corners, in ascending order. -/
def corners (g : Grid) : List Nat :=
  (ends g.rows).flatMap fun row => (ends g.columns).map fun column => g.index row column

/-- All positions: in ascending order those that are no corners, then the
corners. -/
def computePositions (g : Grid) : List Nat :=
  ((List.range g.positions).filter fun p => p ∉ g.corners) ++ g.corners

/-! ## Positions of 64 bits -/

/-- The number of cells, if it fits in 64 bits. -/
def checkedPositions (g : Grid) : Except Overflow Nat :=
  checkedMul g.rows g.columns

/-- The position of a cell, if it fits in 64 bits. -/
def checkedIndex (g : Grid) (row column : Nat) : Except Overflow Nat := do
  checkedAdd (← checkedMul row g.columns) column

/-- The cells at the ends of both dimensions. Along a dimension of length one they
are listed twice. -/
def endCells (g : Grid) : List (Nat × Nat) :=
  [(0, 0), (0, g.columns - 1), (g.rows - 1, 0), (g.rows - 1, g.columns - 1)]

/-- The positions of these cells in ascending order, each once. -/
def checkedCorners (g : Grid) : Except Overflow (List Nat) := do
  let positions ← g.endCells.mapM fun cell => g.checkedIndex cell.1 cell.2
  return (positions.mergeSort (· ≤ ·)).eraseReps

/-! ## Bounds -/

theorem positions_pos (g : Grid) : 0 < g.positions :=
  Nat.mul_pos g.rows_pos g.columns_pos

theorem index_lt (g : Grid) {row column : Nat} (hr : row < g.rows) (hc : column < g.columns) :
    g.index row column < g.positions :=
  calc row * g.columns + column
    _ < row * g.columns + g.columns := Nat.add_lt_add_left hc _
    _ = (row + 1) * g.columns := (Nat.succ_mul row g.columns).symm
    _ ≤ g.rows * g.columns := Nat.mul_le_mul_right _ hr

theorem length_ends (n : Nat) : (ends n).length = if n ≤ 1 then 1 else 2 := by
  unfold ends
  split <;> rfl

theorem corners_ne_nil (g : Grid) : g.corners ≠ [] := by
  have hr : 0 < (ends g.rows).length := by rw [length_ends]; split <;> decide
  have hc : 0 < (ends g.columns).length := by rw [length_ends]; split <;> decide
  intro h
  simp only [corners, List.flatMap_eq_nil_iff, List.map_eq_nil_iff] at h
  cases he : ends g.rows with
  | nil => rw [he] at hr; exact absurd hr (by decide)
  | cons r rs =>
    rw [he] at h
    rw [h r (List.mem_cons_self ..)] at hc
    exact absurd hc (by decide)

end Grid

end CoherentMemory.Interconnect
