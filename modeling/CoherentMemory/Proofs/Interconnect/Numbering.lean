import CoherentMemory.Proofs.Interconnect.Corners
import CoherentMemory.Proofs.Interconnect.GridLinks

/-!
# The numbering of a grid

Counting row by row numbers the cells of a grid without gaps (`bijOn_index`). Listing the
positions of the four end cells in order, each once, gives the corners of the grid, whichever
of these cells coincide (`checkedCorners_eq_ok`): the numbering is injective, so that the
positions coincide where the cells do.

All of this is for numbers of 64 bits, and so for grids of at most 2⁶⁴ cells; `vastGrid` is
larger. `grid_numbering` puts together what holds of the corners and the compute positions
(`CornersOf`, `CornersLast`).
-/

namespace CoherentMemory.Interconnect

/-! ## Repetitions in a sorted list -/

theorem eraseReps_loop_eq (x : Nat) (xs kept : List Nat) :
    List.eraseRepsBy.loop (· == ·) x xs kept = kept.reverse ++ xs.destutter' (· ≠ ·) x := by
  induction xs generalizing x kept with
  | nil => simp [List.eraseRepsBy.loop]
  | cons y xs ih =>
    by_cases h : x = y
    · simp [List.eraseRepsBy.loop, ih, h]
    · have he : (x == y) = false := beq_false_of_ne h
      simp [List.eraseRepsBy.loop, ih, h, he]

theorem eraseReps_eq_destutter (xs : List Nat) : xs.eraseReps = xs.destutter (· ≠ ·) := by
  cases xs with
  | nil => rfl
  | cons x xs => exact eraseReps_loop_eq x xs []

/-- Sorting a list and erasing the repetitions gives the ascending list of its elements. -/
theorem eraseReps_mergeSort (xs : List Nat) :
    (xs.mergeSort (· ≤ ·)).eraseReps = xs.toFinset.sort (· ≤ ·) := by
  have hsorted : (xs.mergeSort (· ≤ ·)).Pairwise (· ≤ ·) := List.pairwise_mergeSort' (· ≤ ·) xs
  have hdedup : (xs.mergeSort (· ≤ ·)).dedup.Pairwise (· ≤ ·) :=
    hsorted.sublist (List.dedup_sublist _)
  have helements : (xs.mergeSort (· ≤ ·)).dedup.toFinset = xs.toFinset := by
    ext x
    rw [List.mem_toFinset, List.mem_dedup, List.mem_mergeSort, List.mem_toFinset]
  rw [eraseReps_eq_destutter, hsorted.destutter_eq_dedup, ← helements]
  exact ((List.toFinset_sort (· ≤ ·) (List.nodup_dedup _)).mpr hdedup).symm

namespace Grid

variable {g : Grid} {p : Nat}

/-! ## Positions -/

/-- Every position is that of one cell. -/
theorem bijOn_index (g : Grid) : Set.BijOn (fun cell : Nat × Nat => g.index cell.1 cell.2)
    {cell | cell.1 < g.rows ∧ cell.2 < g.columns} (Set.Iio g.positions) := by
  refine ⟨fun cell h => g.index_lt h.1 h.2, ?_, fun p hp => ?_⟩
  · rintro ⟨r, c⟩ ⟨-, hc⟩ ⟨r', c'⟩ ⟨-, hc'⟩ e
    obtain ⟨rfl, rfl⟩ := g.index_inj hc hc' e
    rfl
  · exact ⟨(p / g.columns, p % g.columns), ⟨g.div_lt_rows hp, g.mod_lt_columns p⟩,
      g.index_div_mod p⟩

/-- The last cell has the last position. -/
theorem index_last (g : Grid) : g.index (g.rows - 1) (g.columns - 1) + 1 = g.positions := by
  have hc := g.columns_pos
  calc (g.rows - 1) * g.columns + (g.columns - 1) + 1
    _ = (g.rows - 1) * g.columns + g.columns := by omega
    _ = (g.rows - 1 + 1) * g.columns := (Nat.succ_mul _ _).symm
    _ = g.rows * g.columns := by rw [Nat.sub_add_cancel g.rows_pos]

theorem checkedPositions_eq_ok :
    g.checkedPositions = .ok p ↔ g.positions < 2 ^ 64 ∧ p = g.positions := by
  rw [checkedPositions, checkedMul_eq_ok, and_comm, eq_comm]
  rfl

theorem checkedIndex_eq_ok {row column : Nat} :
    g.checkedIndex row column = .ok p ↔ g.index row column < 2 ^ 64 ∧ p = g.index row column := by
  show (checkedMul row g.columns).bind (checkedAdd · column) = .ok p ↔ _
  simp only [bind_eq_ok, checkedMul_eq_ok, checkedAdd_eq_ok, index]
  constructor
  · rintro ⟨_, ⟨rfl, -⟩, rfl, h⟩
    exact ⟨h, rfl⟩
  · rintro ⟨h, rfl⟩
    exact ⟨_, ⟨rfl, Nat.lt_of_le_of_lt (Nat.le_add_right _ _) h⟩, rfl, h⟩

/-- Positions fit in 64 bits if the last of them does. -/
theorem forall_checkedIndex_iff : (∀ row < g.rows, ∀ column < g.columns,
    g.checkedIndex row column = .ok (g.index row column)) ↔ g.positions ≤ 2 ^ 64 := by
  simp only [checkedIndex_eq_ok, and_true]
  constructor
  · intro h
    have hlast := h _ (Nat.sub_one_lt_of_lt g.rows_pos) _ (Nat.sub_one_lt_of_lt g.columns_pos)
    rw [← g.index_last]
    exact hlast
  · intro h row hr column hc
    exact Nat.lt_of_lt_of_le (g.index_lt hr hc) h

/-! ## Corners -/

/-- The list of the corners of a grid. -/
structure CornersOf (g : Grid) (corners : List Nat) : Prop where
  pairwise : corners.Pairwise (· < ·)
  lt_positions : ∀ p ∈ corners, p < g.positions
  mem_iff : ∀ p, p ∈ corners ↔
    ∃ r c, (r = 0 ∨ r = g.rows - 1) ∧ (c = 0 ∨ c = g.columns - 1) ∧ g.index r c = p
  /-- A dimension of length one has a single end. -/
  length_eq : corners.length =
    (if g.rows = 1 then 1 else 2) * (if g.columns = 1 then 1 else 2)

/-- A list of all positions in which the corners come last. -/
structure CornersLast (g : Grid) (corners positions : List Nat) : Prop where
  perm : positions.Perm (List.range g.positions)
  split : ∃ others, positions = others ++ corners ∧ others.Pairwise (· < ·) ∧
    ∀ p, p ∈ others ↔ p < g.positions ∧ p ∉ corners

theorem cornersOf_corners (g : Grid) : g.CornersOf g.corners where
  pairwise := g.pairwise_corners
  lt_positions _ := lt_of_mem_corners
  mem_iff p := by
    rw [mem_corners]
    constructor
    · rintro (rfl | rfl | rfl | rfl)
      · exact ⟨_, _, .inl rfl, .inl rfl, rfl⟩
      · exact ⟨_, _, .inl rfl, .inr rfl, rfl⟩
      · exact ⟨_, _, .inr rfl, .inl rfl, rfl⟩
      · exact ⟨_, _, .inr rfl, .inr rfl, rfl⟩
    · rintro ⟨r, c, rfl | rfl, rfl | rfl, rfl⟩ <;> simp
  length_eq := by
    have hends {n : Nat} (hn : 0 < n) : (ends n).length = if n = 1 then 1 else 2 := by
      rw [length_ends]
      exact if_congr (by omega) rfl rfl
    rw [corners, List.length_flatMap]
    simp only [List.length_map, List.map_const', List.sum_replicate, smul_eq_mul]
    rw [hends g.rows_pos, hends g.columns_pos]

theorem cornersLast_computePositions (g : Grid) : g.CornersLast g.corners g.computePositions where
  perm := g.computePositions_perm
  split := by
    refine ⟨_, rfl, List.pairwise_lt_range.sublist List.filter_sublist, fun p => ?_⟩
    rw [List.mem_filter, List.mem_range, decide_eq_true_eq]

theorem mapM_checkedIndex (h : g.positions ≤ 2 ^ 64) :
    (g.endCells.mapM fun cell => g.checkedIndex cell.1 cell.2) =
      .ok (g.endCells.map fun cell => g.index cell.1 cell.2) := by
  refine mapM_eq fun cell hcell => ?_
  obtain ⟨hr, hc⟩ := lt_of_mem_endCells hcell
  exact forall_checkedIndex_iff.mpr h _ hr _ hc

/-- The corners can be listed if the last of them has a position. -/
theorem checkedCorners_eq_ok {cs : List Nat} :
    g.checkedCorners = .ok cs ↔ g.positions ≤ 2 ^ 64 ∧ cs = g.corners := by
  show (g.endCells.mapM fun cell => g.checkedIndex cell.1 cell.2).bind
    (fun ps => .ok (ps.mergeSort (· ≤ ·)).eraseReps) = .ok cs ↔ _
  rw [bind_eq_ok]
  constructor
  · rintro ⟨ps, hps, e⟩
    have hlast : (g.rows - 1, g.columns - 1) ∈ g.endCells := by simp [endCells]
    obtain ⟨p, hp⟩ := exists_mapM_iff.mp ⟨ps, hps⟩ _ hlast
    have hfit : g.positions ≤ 2 ^ 64 := by
      rw [← g.index_last]
      exact (checkedIndex_eq_ok.mp hp).1
    rw [mapM_checkedIndex hfit] at hps
    cases hps
    rw [eraseReps_mergeSort, g.sort_endCells] at e
    exact ⟨hfit, (Except.ok.inj e).symm⟩
  · rintro ⟨hfit, rfl⟩
    exact ⟨_, mapM_checkedIndex hfit, by rw [eraseReps_mergeSort, g.sort_endCells]⟩

end Grid

/-- The numbering of a grid has a position for each cell, and the corners are the positions of
the cells at the ends of both dimensions, in ascending order. The compute positions are all
positions, first those that are no corners, in ascending order, and then the corners. Cells
have positions of 64 bits, and the corners can be listed, exactly if there are no more than
2⁶⁴ cells; to count them there have to be less. -/
theorem grid_numbering (g : Grid) :
    Set.BijOn (fun cell : Nat × Nat => g.index cell.1 cell.2)
        {cell | cell.1 < g.rows ∧ cell.2 < g.columns} (Set.Iio g.positions) ∧
      g.CornersOf g.corners ∧ g.CornersLast g.corners g.computePositions ∧
      ((∀ row < g.rows, ∀ column < g.columns,
        g.checkedIndex row column = .ok (g.index row column)) ↔ g.positions ≤ 2 ^ 64) ∧
      (∀ cs, g.checkedCorners = .ok cs ↔ g.positions ≤ 2 ^ 64 ∧ cs = g.corners) ∧
      ∀ n, g.checkedPositions = .ok n ↔ g.positions < 2 ^ 64 ∧ n = g.positions :=
  ⟨g.bijOn_index, g.cornersOf_corners, g.cornersLast_computePositions,
    Grid.forall_checkedIndex_iff, fun _ => Grid.checkedCorners_eq_ok,
    fun _ => Grid.checkedPositions_eq_ok⟩

/-- A grid with cells beyond the numbers of 64 bits. -/
def vastGrid : Grid where
  rows := 4294967297
  columns := 4294967296
  rows_pos := by decide
  columns_pos := by decide

/-- The last row of this grid has no positions, so neither have two of its corners. -/
theorem vastGrid_checkedCorners : vastGrid.checkedIndex 4294967296 0 = .error .multiplication ∧
    vastGrid.checkedCorners = .error .multiplication ∧
      vastGrid.checkedPositions = .error .multiplication :=
  ⟨rfl, rfl, rfl⟩

end CoherentMemory.Interconnect
