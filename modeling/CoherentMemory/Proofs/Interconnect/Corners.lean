import CoherentMemory.Proofs.Interconnect.Wiring

/-!
# Corners and compute positions

The corners of a grid come in ascending order and each once (`pairwise_corners`), also where a
dimension of length one has a single end; so they are the positions of the four end cells,
sorted (`sort_endCells`). The compute positions are all positions in another
order (`computePositions_perm`), in which a corner comes up after all cells that are none
(`exists_lt_of_mem_corners`). Elements that are taken in turn come up equally often, up to one
(`countP_mod_le`).
-/

namespace CoherentMemory.Interconnect

/-! ## Turns -/

/-- As long as no element has come up twice, the turn is its place. -/
theorem getElem?_of_lt_length {xs : List Nat} {turn : Nat} (h : turn < xs.length) :
    xs[turn]? = some (takeTurn xs turn) := by
  have hne : xs ≠ [] := List.ne_nil_of_length_pos (Nat.zero_lt_of_lt h)
  rw [← getElem?_takeTurn hne, Nat.mod_eq_of_lt h]

/-- Of the numbers below `n` any two remainders have equally many, up to one. -/
theorem countP_mod_le (n : Nat) {k x y : Nat} (hx : x < k) (hy : y < k) :
    (List.range n).countP (fun j => j % k = x) ≤
      (List.range n).countP (fun j => j % k = y) + 1 := by
  have count {z : Nat} (hz : z < k) : (List.range n).countP (fun j => j % k = z) =
      n / k + if z < n % k then 1 else 0 := by
    have h := Nat.count_modEq_card n (Nat.zero_lt_of_lt hz) z
    rw [Nat.mod_eq_of_lt hz] at h
    rw [← h, Nat.count]
    refine List.countP_congr fun j _ => ?_
    rw [decide_eq_true_eq, decide_eq_true_eq, Nat.ModEq, Nat.mod_eq_of_lt hz]
  rw [count hx, count hy]
  split <;> split <;> omega

namespace Grid

variable {g : Grid}

/-! ## Corners -/

/-- Corners come in ascending order. -/
theorem pairwise_corners (g : Grid) : g.corners.Pairwise (· < ·) := by
  have hr := g.rows_pos
  have hc := g.columns_pos
  have hrow : 1 < g.rows → g.columns ≤ (g.rows - 1) * g.columns := fun h =>
    Nat.le_mul_of_pos_left _ (by omega)
  unfold Grid.corners Grid.ends
  split <;> split <;> simp [Grid.index] <;> omega

theorem nodup_corners (g : Grid) : g.corners.Nodup :=
  g.pairwise_corners.imp Nat.ne_of_lt

theorem mem_corners {p : Nat} : p ∈ g.corners ↔ p = g.index 0 0 ∨ p = g.index 0 (g.columns - 1) ∨
    p = g.index (g.rows - 1) 0 ∨ p = g.index (g.rows - 1) (g.columns - 1) := by
  have ends {n i : Nat} (hn : 0 < n) : i ∈ Grid.ends n ↔ i = 0 ∨ i = n - 1 := by
    unfold Grid.ends
    split
    · have : n - 1 = 0 := by omega
      simp [this]
    · simp
  simp only [Grid.corners, List.mem_flatMap, List.mem_map, ends g.rows_pos, ends g.columns_pos]
  constructor
  · rintro ⟨r, rfl | rfl, c, rfl | rfl, rfl⟩ <;> simp
  · rintro (rfl | rfl | rfl | rfl)
    · exact ⟨_, .inl rfl, _, .inl rfl, rfl⟩
    · exact ⟨_, .inl rfl, _, .inr rfl, rfl⟩
    · exact ⟨_, .inr rfl, _, .inl rfl, rfl⟩
    · exact ⟨_, .inr rfl, _, .inr rfl, rfl⟩

theorem lt_of_mem_endCells {cell : Nat × Nat} (h : cell ∈ g.endCells) :
    cell.1 < g.rows ∧ cell.2 < g.columns := by
  have hr := g.rows_pos
  have hc := g.columns_pos
  simp only [endCells, List.mem_cons, List.not_mem_nil, or_false] at h
  rcases h with rfl | rfl | rfl | rfl
  · exact ⟨hr, hc⟩
  · exact ⟨hr, Nat.sub_one_lt_of_lt hc⟩
  · exact ⟨Nat.sub_one_lt_of_lt hr, hc⟩
  · exact ⟨Nat.sub_one_lt_of_lt hr, Nat.sub_one_lt_of_lt hc⟩

/-- The corners are the positions of the end cells, however many of these coincide. -/
theorem sort_endCells (g : Grid) :
    (g.endCells.map fun cell => g.index cell.1 cell.2).toFinset.sort (· ≤ ·) = g.corners := by
  have he : (g.endCells.map fun cell => g.index cell.1 cell.2).toFinset = g.corners.toFinset := by
    ext p
    simp only [List.mem_toFinset, mem_corners, endCells, List.map_cons, List.map_nil,
      List.mem_cons, List.not_mem_nil, or_false]
  rw [he, List.toFinset_sort _ g.nodup_corners]
  exact g.pairwise_corners.imp Nat.le_of_lt

/-! ## Compute positions -/

/-- The compute positions are all positions in another order. -/
theorem computePositions_perm (g : Grid) : g.computePositions.Perm (List.range g.positions) := by
  have hcorners : g.corners.Perm ((List.range g.positions).filter fun p => !(p ∉ g.corners)) := by
    refine (List.perm_ext_iff_of_nodup g.nodup_corners (List.nodup_range.filter _)).mpr fun p => ?_
    simp only [List.mem_filter, List.mem_range, decide_not, Bool.not_not, decide_eq_true_eq]
    exact ⟨fun h => ⟨lt_of_mem_corners h, h⟩, And.right⟩
  exact (hcorners.append_left _).trans (List.filter_append_perm _ _)

theorem length_computePositions (g : Grid) : g.computePositions.length = g.positions := by
  rw [g.computePositions_perm.length_eq, List.length_range]

theorem nodup_computePositions (g : Grid) : g.computePositions.Nodup :=
  g.computePositions_perm.nodup_iff.mpr List.nodup_range

/-- A corner comes up after all cells that are no corners. -/
theorem exists_lt_of_mem_corners {p q o : Nat} (ho : g.computePositions[o]? = some p)
    (hp : p ∈ g.corners) (hq : q < g.positions) (hqc : q ∉ g.corners) :
    ∃ o' < o, g.computePositions[o']? = some q := by
  have hmem : q ∈ (List.range g.positions).filter fun p => p ∉ g.corners :=
    List.mem_filter.mpr ⟨List.mem_range.mpr hq, decide_eq_true hqc⟩
  obtain ⟨o', ho'⟩ := List.getElem?_of_mem hmem
  have hlt' := (List.getElem?_eq_some_iff.mp ho').1
  refine ⟨o', ?_, (List.getElem?_append_left hlt').trans ho'⟩
  by_contra hle
  -- what comes up before `o'` is no corner
  have hlt : o < ((List.range g.positions).filter fun p => p ∉ g.corners).length := by omega
  rw [computePositions, List.getElem?_append_left hlt] at ho
  have hnot := (List.mem_filter.mp (List.mem_of_getElem? ho)).2
  exact of_decide_eq_true hnot hp

end Grid

end CoherentMemory.Interconnect
