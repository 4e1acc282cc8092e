import CoherentMemory.Proofs.Guarded.Words
import CoherentMemory.Proofs.Interconnect.Corners

/-!
# Guarded grids and fabrics

The positions of a grid, its corners, and the routers and links of its fabric in guarded
operations. A grid is not empty in either direction, which is what the corners need; all
else are sums that stay below the number of nodes (`fabric_eq`).
-/

namespace CoherentMemory.Guarded

open Interconnect

/-! ## Positions -/

/-- The number of cells. -/
def positions (g : Grid) : Except Fault Nat :=
  mul g.rows g.columns

/-- The position of a cell. -/
def index (g : Grid) (row column : Nat) : Except Fault Nat := do
  add (← mul row g.columns) column

/-- The positions of the cells at the ends of both dimensions, each once and in
ascending order. -/
def corners (g : Grid) : Except Fault (List Nat) := do
  let right ← sub g.columns 1
  let bottom ← sub g.rows 1
  let cells ← [(0, 0), (0, right), (bottom, 0), (bottom, right)].mapM fun cell =>
    index g cell.1 cell.2
  return cells.toFinset.sort (· ≤ ·)

/-- All positions, those of the corners last. -/
def computePositions (g : Grid) : Except Fault (List Nat) := do
  let corners ← corners g
  let cells ← positions g
  return ((List.range cells).filter fun p => p ∉ corners) ++ corners

section Positions

variable {g : Grid}

theorem positions_eq (hg : g.positions < 2 ^ 64) : positions g = .ok g.positions :=
  mul_eq hg

theorem index_eq (hg : g.positions < 2 ^ 64) {row column : Nat} (hr : row < g.rows)
    (hc : column < g.columns) : index g row column = .ok (g.index row column) := by
  have hlt := g.index_lt hr hc
  rw [Grid.index] at hlt
  rw [index, mul_eq (by omega), ok_bind, add_eq (by omega), Grid.index]

theorem corners_eq (hg : g.positions < 2 ^ 64) : corners g = .ok g.corners := by
  have hcells : g.endCells.mapM (fun cell => index g cell.1 cell.2) =
      .ok (g.endCells.map fun cell => g.index cell.1 cell.2) := by
    refine mapM_eq fun cell hcell => ?_
    obtain ⟨hr, hc⟩ := Grid.lt_of_mem_endCells hcell
    exact index_eq hg hr hc
  rw [corners, sub_eq g.columns_pos, ok_bind, sub_eq g.rows_pos, ok_bind]
  show (do
    let cells ← g.endCells.mapM fun cell => index g cell.1 cell.2
    return cells.toFinset.sort (· ≤ ·)) = Except.ok g.corners
  rw [hcells, ok_bind, g.sort_endCells]
  rfl

theorem computePositions_eq (hg : g.positions < 2 ^ 64) :
    computePositions g = .ok g.computePositions := by
  rw [computePositions, corners_eq hg, ok_bind, positions_eq hg, ok_bind]
  rfl

end Positions

/-! ## Fabrics -/

/-- The router at a cell. -/
def router (g : Grid) (first : NodeId) (row column : Nat) : Except Fault NodeId := do
  add first (← index g row column)

/-- The routers, numbered from `first`. -/
def routerNodes (g : Grid) (first : NodeId) : Except Fault (List Node) := do
  (List.range (← positions g)).mapM fun p => do
    return ⟨← add first p, .router⟩

/-- The pairs of neighbouring coordinates along a dimension. -/
def steps (wraparound : Bool) (length : Nat) : Except Fault (List (Nat × Nat)) := do
  let forward ← (List.range (length - 1)).mapM fun i => do return (i, ← add i 1)
  if wraparound && 2 < length then return forward ++ [(← sub length 1, 0)] else return forward

/-- The links along the rows. -/
def rowLinks (g : Grid) (first : NodeId) (shape : Shape) : Except Fault (List Link) := do
  let rows ← (List.range g.rows).mapM fun row => do
    (← steps shape.wraparound g.columns).mapM fun s => do
      return internalLink shape rowWeight (← router g first row s.1) (← router g first row s.2)
  return rows.flatten

/-- The links along the columns. -/
def columnLinks (g : Grid) (first : NodeId) (shape : Shape) : Except Fault (List Link) := do
  let columns ← (List.range g.columns).mapM fun column => do
    (← steps shape.wraparound g.rows).mapM fun s => do
      return internalLink shape columnWeight (← router g first s.1 column)
        (← router g first s.2 column)
  return columns.flatten

/-- The links between the routers of a grid. -/
def fabric (g : Grid) (first : NodeId) (shape : Shape) : Except Fault (List Link) := do
  return (← rowLinks g first shape) ++ (← columnLinks g first shape)

section Fabric

variable {g : Grid} {first : Nat}

theorem steps_eq (w : Bool) {n : Nat} (hn : n < 2 ^ 64) :
    steps w n = .ok (Interconnect.steps w n) := by
  have hforward : ((List.range (n - 1)).mapM fun i => do return (i, ← add i 1)) =
      Except.ok ((List.range (n - 1)).map fun i => (i, i + 1)) := by
    refine mapM_eq fun i hi => ?_
    have hlt := List.mem_range.mp hi
    rw [add_eq (by omega)]
    rfl
  rw [steps, hforward, ok_bind, Interconnect.steps]
  split
  · rename_i h
    rw [Bool.and_eq_true, decide_eq_true_eq] at h
    rw [sub_eq (by omega)]
    rfl
  · rw [List.append_nil]
    rfl

variable (hfirst : first + g.positions < 2 ^ 64)
include hfirst

theorem router_eq {row column : Nat} (hr : row < g.rows) (hc : column < g.columns) :
    router g first row column = .ok (first + g.index row column) := by
  have hlt := g.index_lt hr hc
  rw [router, index_eq (by omega) hr hc, ok_bind, add_eq (by omega)]

theorem routerNodes_eq :
    routerNodes g first = .ok (Interconnect.routerNodes first g.positions) := by
  rw [routerNodes, positions_eq (by omega), ok_bind]
  refine mapM_eq fun p hp => ?_
  have hlt := List.mem_range.mp hp
  rw [add_eq (by omega)]
  rfl

theorem rowLinks_eq (shape : Shape) :
    rowLinks g first shape = .ok (Interconnect.rowLinks g first shape) := by
  have hcolumns : g.columns < 2 ^ 64 := by
    have := Nat.le_mul_of_pos_left g.columns g.rows_pos
    rw [Grid.positions] at hfirst
    omega
  rw [rowLinks, mapM_eq (g := fun row => (Interconnect.steps shape.wraparound g.columns).map
    fun s => internalLink shape rowWeight (first + g.index row s.1) (first + g.index row s.2))]
  · rfl
  intro row hrow
  rw [steps_eq _ hcolumns, ok_bind]
  refine mapM_eq fun s hs => ?_
  obtain ⟨hi, hj⟩ := Neighbouring.lt (.inl hs)
  rw [router_eq hfirst (List.mem_range.mp hrow) hi, ok_bind,
    router_eq hfirst (List.mem_range.mp hrow) hj]
  rfl

theorem columnLinks_eq (shape : Shape) :
    columnLinks g first shape = .ok (Interconnect.columnLinks g first shape) := by
  have hrows : g.rows < 2 ^ 64 := by
    have := Nat.le_mul_of_pos_right g.rows g.columns_pos
    rw [Grid.positions] at hfirst
    omega
  rw [columnLinks, mapM_eq (g := fun column => (Interconnect.steps shape.wraparound g.rows).map
    fun s => internalLink shape columnWeight (first + g.index s.1 column)
      (first + g.index s.2 column))]
  · rfl
  intro column hcolumn
  rw [steps_eq _ hrows, ok_bind]
  refine mapM_eq fun s hs => ?_
  obtain ⟨hi, hj⟩ := Neighbouring.lt (.inl hs)
  rw [router_eq hfirst hi (List.mem_range.mp hcolumn), ok_bind,
    router_eq hfirst hj (List.mem_range.mp hcolumn)]
  rfl

theorem fabric_eq (shape : Shape) :
    fabric g first shape = .ok (Interconnect.fabric g first shape) := by
  rw [fabric, rowLinks_eq hfirst, ok_bind, columnLinks_eq hfirst]
  rfl

end Fabric

end CoherentMemory.Guarded
