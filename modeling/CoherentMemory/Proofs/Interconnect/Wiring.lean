import CoherentMemory.Interconnect.Layout
import CoherentMemory.Proofs.Interconnect.Route

/-!
# The wiring of a layout

All layouts have one form (`Wiring`): the endpoints of the controllers, the routers
of a grid, one external link from each endpoint to the router at some position, and
the fabric of the grid. `layout_wiring` finds the grid and the positions for every
topology that is laid out; a crossbar is wired over the grid of a single router.
The rest reads a wiring: which nodes there are (`isEndpoint_iff`, `routers_eq`),
and what a link joins (`Wiring.joins_cases`).
-/

namespace CoherentMemory.Interconnect

/-- `t` joins controller `i` to the router at `position i` of the grid `g`. -/
structure Wiring (t : Topology) (cs : ControllerSet) (shape : Shape) (g : Grid)
    (position : Nat → Nat) : Prop where
  nodes_eq : t.nodes.toList = endpointNodes cs ++ routerNodes cs.length g.positions
  links_perm : t.links.Perm
    ((List.range cs.length).map (fun i => externalLink shape i (cs.length + position i)) ++
      fabric g cs.length shape)
  position_lt : ∀ i < cs.length, position i < g.positions

/-! ## Positions -/

/-- Pairs with the keys `0` to `n - 1` are the graph of a function. -/
theorem exists_perm_map_range {n : Nat} {ps : List (Nat × Nat)}
    (h : (ps.map Prod.fst).Perm (List.range n)) :
    ∃ f : Nat → Nat, ps.Perm ((List.range n).map fun i => (i, f i)) := by
  have hn : (ps.map Prod.fst).Nodup := h.nodup_iff.mpr List.nodup_range
  let f (i : Nat) : Nat := ((ps.find? fun p => p.1 = i).map Prod.snd).getD 0
  have hf : ∀ p ∈ ps, (p.1, f p.1) = p := by
    intro p hp
    have hfind : ps.find? (fun q => q.1 = p.1) = some p := by
      cases hq : ps.find? (fun q => q.1 = p.1) with
      | none => exact absurd (List.find?_eq_none.mp hq p hp) (by simp)
      | some q =>
        have hk : q.1 = p.1 := by simpa using List.find?_some hq
        exact congrArg some (List.inj_on_of_nodup_map hn (List.mem_of_find?_eq_some hq) hp hk)
    show (p.1, ((ps.find? fun q => q.1 = p.1).map Prod.snd).getD 0) = p
    rw [hfind]
    rfl
  refine ⟨f, ?_⟩
  have hps : ps = (ps.map Prod.fst).map fun i => (i, f i) := by
    rw [List.map_map]
    exact (List.map_id ps).symm.trans (List.map_congr_left fun p hp => (hf p hp).symm)
  rw [hps]
  exact h.map _

/-- Every controller is placed or a device controller, and none is both. -/
theorem placed_append_unplaced (cs : ControllerSet) :
    (cs.placed ++ cs.unplaced).Perm (List.range cs.length) := by
  have h := (List.filter_append_perm (fun c => c.1.isPlaced) cs.zipIdx).map Prod.snd
  rw [List.map_append, List.zipIdx_map_snd, ← List.range_eq_range'] at h
  have e : cs.unplaced = (cs.zipIdx.filter fun c => !c.1.isPlaced).map Prod.snd := by
    simp only [ControllerSet.unplaced, ControllerSet.positions, Controller.isPlaced, Bool.not_not]
  rw [e]
  exact h

/-- The element that comes up is the one at the remainder of the turn. -/
theorem getElem?_takeTurn {xs : List Nat} (h : xs ≠ []) (turn : Nat) :
    xs[turn % xs.length]? = some (takeTurn xs turn) := by
  have hlt : turn % xs.length < xs.length := Nat.mod_lt _ (List.length_pos_iff.mpr h)
  rw [takeTurn, List.getD_eq_getElem?_getD, List.getElem?_eq_getElem hlt]
  rfl

theorem takeTurn_mem {xs : List Nat} (h : xs ≠ []) (turn : Nat) : takeTurn xs turn ∈ xs :=
  List.mem_of_getElem? (getElem?_takeTurn h turn)

theorem Grid.lt_of_mem_ends {n i : Nat} (hn : 0 < n) (h : i ∈ ends n) : i < n := by
  unfold ends at h
  split at h
  · rw [List.mem_singleton.mp h]
    exact hn
  · simp only [List.mem_cons, List.not_mem_nil, or_false] at h
    omega

theorem Grid.lt_of_mem_corners {g : Grid} {p : Nat} (h : p ∈ g.corners) : p < g.positions := by
  simp only [corners, List.mem_flatMap, List.mem_map] at h
  obtain ⟨r, hr, c, hc, rfl⟩ := h
  exact g.index_lt (lt_of_mem_ends g.rows_pos hr) (lt_of_mem_ends g.columns_pos hc)

theorem Grid.lt_of_mem_computePositions {g : Grid} {p : Nat} (h : p ∈ g.computePositions) :
    p < g.positions := by
  rcases List.mem_append.mp h with h | h
  · exact List.mem_range.mp (List.mem_of_mem_filter h)
  · exact lt_of_mem_corners h

theorem lt_of_mem_cornerPlacementFrom {g : Grid} {d o p : Nat} {cs : List Controller}
    (h : p ∈ cornerPlacementFrom g d o cs) : p < g.positions := by
  have hc : g.computePositions ≠ [] := fun e => g.corners_ne_nil (List.append_eq_nil_iff.mp e).2
  induction cs generalizing d o with
  | nil => cases h
  | cons c cs ih =>
    unfold cornerPlacementFrom at h
    split at h
    · rcases List.mem_cons.mp h with rfl | h
      · exact Grid.lt_of_mem_corners (takeTurn_mem g.corners_ne_nil d)
      · exact ih h
    · rcases List.mem_cons.mp h with rfl | h
      · exact Grid.lt_of_mem_computePositions (takeTurn_mem hc o)
      · exact ih h

/-- All placed controllers stand on the grid that they fill. -/
theorem lt_of_mem_placement {kind : Kind} {g : Grid} {cs : ControllerSet}
    (hg : cs.placed.length = g.positions) {p : Nat} (h : p ∈ placement kind g cs) :
    p < g.positions := by
  cases kind with
  | meshDirCorner => exact lt_of_mem_cornerPlacementFrom h
  | mesh | crossbar => exact hg ▸ List.mem_range.mp h

/-! ## Layouts are wirings -/

/-- The grid of a mesh has the rows of its shape, and a router for each placed
controller. -/
theorem meshGrid_eq_ok {cs : ControllerSet} {rows : Nat} {g : Grid} (h : meshGrid cs rows = .ok g) :
    g.rows = rows ∧ cs.placed.length = g.positions := by
  unfold meshGrid at h
  split at h
  · cases h
  · by_cases hm : cs.placed.length % rows = 0
    · simp only [if_pos hm, Grid.ofDimensions?] at h
      split at h
      · rename_i g' hg
        split at hg
        · cases h
          cases hg
          exact ⟨rfl, (Nat.mul_div_cancel' (Nat.dvd_of_mod_eq_zero hm)).symm⟩
        · cases hg
      · cases h
    · simp only [if_neg hm] at h
      cases h

/-- The placements of a mesh: every controller with its position. -/
def placements (kind : Kind) (g : Grid) (cs : ControllerSet) : List (Nat × Nat) :=
  cs.placed.zip (placement kind g cs) ++ cs.unplaced.map fun i => (i, 0)

theorem meshExternalLinks_eq (kind : Kind) (g : Grid) (cs : ControllerSet) (shape : Shape) :
    meshExternalLinks kind g cs shape =
      (placements kind g cs).map fun p => externalLink shape p.1 (cs.length + p.2) := by
  rw [placements, List.map_append, List.map_map, List.map_zip_eq_zipWith]
  rfl

theorem meshOver_wiring (kind : Kind) {g : Grid} {cs : ControllerSet}
    (hg : cs.placed.length = g.positions) (shape : Shape) :
    ∃ position, Wiring (meshOver kind g cs shape) cs shape g position := by
  have hlen := length_placement kind g cs
  have hkeys : ((placements kind g cs).map Prod.fst).Perm (List.range cs.length) := by
    have e : (placements kind g cs).map Prod.fst = cs.placed ++ cs.unplaced := by
      rw [placements, List.map_append, List.map_fst_zip (Nat.le_of_eq hlen.symm), List.map_map]
      exact congrArg _ (List.map_id _)
    rw [e]
    exact placed_append_unplaced cs
  obtain ⟨position, hpos⟩ := exists_perm_map_range hkeys
  refine ⟨position, rfl, ?_, fun i hi => ?_⟩
  · show (meshExternalLinks kind g cs shape ++ fabric g cs.length shape).Perm _
    have h := hpos.map fun p : Nat × Nat => externalLink shape p.1 (cs.length + p.2)
    rw [List.map_map] at h
    rw [meshExternalLinks_eq]
    exact h.append_right _
  · have hmem : (i, position i) ∈ placements kind g cs :=
      hpos.mem_iff.mpr (List.mem_map.mpr ⟨i, List.mem_range.mpr hi, rfl⟩)
    rcases List.mem_append.mp hmem with h | h
    · exact lt_of_mem_placement hg (List.of_mem_zip h).2
    · obtain ⟨j, -, e⟩ := List.mem_map.mp h
      rw [← (Prod.mk.inj e).2]
      exact g.positions_pos

theorem meshOf_of_meshGrid (kind : Kind) {cs : ControllerSet} {shape : Shape} {g : Grid}
    (h : meshGrid cs shape.rows = .ok g) :
    meshOf kind cs shape = .ok (meshOver kind g cs shape) := by
  rw [meshOf, h]
  rfl

theorem meshOf_wiring {kind : Kind} {cs : ControllerSet} {shape : Shape} {t : Topology}
    (h : meshOf kind cs shape = .ok t) :
    ∃ g position, Wiring t cs shape g position ∧ t.grid = some g ∧ g.rows = shape.rows := by
  cases hg : meshGrid cs shape.rows with
  | error e =>
    rw [meshOf, hg] at h
    cases h
  | ok g =>
    rw [meshOf_of_meshGrid kind hg] at h
    cases h
    obtain ⟨hrows, hplaced⟩ := meshGrid_eq_ok hg
    obtain ⟨position, hw⟩ := meshOver_wiring kind hplaced shape
    exact ⟨g, position, hw, rfl, hrows⟩

/-- The grid of a single router. -/
def Grid.single : Grid :=
  ⟨1, 1, Nat.one_pos, Nat.one_pos⟩

theorem fabric_single (first : NodeId) (shape : Shape) : fabric .single first shape = [] := by
  have h : steps shape.wraparound 1 = [] := by
    simp [steps]
  simp [fabric, rowLinks, columnLinks, Grid.single, h]

theorem crossbar_wiring {cs : ControllerSet} {shape : Shape} {t : Topology}
    (h : crossbar cs shape = .ok t) :
    Wiring t cs shape .single (fun _ => 0) ∧ t.grid = none := by
  unfold crossbar at h
  split at h
  · cases h
  · cases h
    refine ⟨⟨rfl, ?_, fun _ _ => Nat.one_pos⟩, rfl⟩
    rw [fabric_single, List.append_nil]
    exact List.Perm.refl _

/-- Every layout is a wiring, of the grid that the topology names or, for a
crossbar, of a single router. -/
theorem layout_wiring {kind : Kind} {cs : ControllerSet} {shape : Shape} {t : Topology}
    (h : layout kind cs shape = .ok t) :
    ∃ g position, Wiring t cs shape g position ∧
      (kind = .crossbar → g = .single ∧ t.grid = none) ∧
      (kind ≠ .crossbar → t.grid = some g ∧ g.rows = shape.rows) := by
  cases kind with
  | crossbar =>
    obtain ⟨hw, hg⟩ := crossbar_wiring h
    exact ⟨.single, _, hw, fun _ => ⟨rfl, hg⟩, fun hk => absurd rfl hk⟩
  | mesh | meshDirCorner =>
    obtain ⟨g, position, hw, hg⟩ := meshOf_wiring h
    exact ⟨g, position, hw, nofun, fun _ => hg⟩

/-! ## Nodes -/

namespace Wiring

variable {t : Topology} {cs : ControllerSet} {shape : Shape} {g : Grid} {position : Nat → Nat}

theorem nodeCount_eq (h : Wiring t cs shape g position) :
    t.nodeCount = cs.length + g.positions := by
  rw [Topology.nodeCount, ← Array.length_toList, h.nodes_eq, List.length_append,
    length_endpointNodes, length_routerNodes]

theorem node?_endpoint (h : Wiring t cs shape g position) {i : Nat} (hi : i < cs.length) :
    t.node? i = some (endpointNode i cs[i]) := by
  rw [Topology.node?, ← Array.getElem?_toList, h.nodes_eq,
    List.getElem?_append_left (by rw [length_endpointNodes]; exact hi), endpointNodes,
    List.getElem?_mapIdx, List.getElem?_eq_getElem hi]
  rfl

theorem node?_router (h : Wiring t cs shape g position) {p : Nat} (hp : p < g.positions) :
    t.node? (cs.length + p) = some ⟨cs.length + p, .router⟩ := by
  rw [Topology.node?, ← Array.getElem?_toList, h.nodes_eq,
    List.getElem?_append_right (by rw [length_endpointNodes]; exact Nat.le_add_right ..),
    length_endpointNodes, Nat.add_sub_cancel_left, routerNodes, List.getElem?_map,
    List.getElem?_range hp]
  rfl

theorem node?_of_le (h : Wiring t cs shape g position) {v : NodeId}
    (hv : cs.length + g.positions ≤ v) : t.node? v = none :=
  Array.getElem?_eq_none (by rw [← h.nodeCount_eq] at hv; exact hv)

/-- Every node is an endpoint, a router at a position, or out of range. -/
theorem node_cases (g : Grid) (cs : ControllerSet) (v : Nat) :
    v < cs.length ∨ (∃ p < g.positions, v = cs.length + p) ∨ cs.length + g.positions ≤ v := by
  by_cases h₁ : v < cs.length
  · exact .inl h₁
  · by_cases h₂ : v < cs.length + g.positions
    · exact .inr (.inl ⟨v - cs.length, by omega, by omega⟩)
    · exact .inr (.inr (Nat.le_of_not_lt h₂))

theorem isEndpoint_iff (h : Wiring t cs shape g position) {v : Nat} :
    t.isEndpoint v = true ↔ v < cs.length := by
  rcases node_cases g cs v with hv | ⟨p, hp, rfl⟩ | hv
  · rw [Topology.isEndpoint, h.node?_endpoint hv]
    exact ⟨fun _ => hv, fun _ => rfl⟩
  · rw [Topology.isEndpoint, h.node?_router hp]
    exact ⟨nofun, fun hlt => absurd hlt (Nat.not_lt.mpr (Nat.le_add_right ..))⟩
  · rw [Topology.isEndpoint, h.node?_of_le hv]
    exact ⟨nofun, fun hlt => by omega⟩

theorem isRouter_router (h : Wiring t cs shape g position) {p : Nat} (hp : p < g.positions) :
    t.isRouter (cs.length + p) = true := by
  rw [Topology.isRouter, h.node?_router hp]
  rfl

/-- The endpoints are those of the controllers. -/
theorem endpoints_eq (h : Wiring t cs shape g position) : t.endpoints = endpointNodes cs := by
  have he : (endpointNodes cs).filter Node.isEndpoint = endpointNodes cs := by
    refine List.filter_eq_self.mpr fun n hn => ?_
    obtain ⟨i, hi, rfl⟩ := List.mem_mapIdx.mp hn
    rfl
  have hr : (routerNodes cs.length g.positions).filter Node.isEndpoint = [] := by
    refine List.filter_eq_nil_iff.mpr fun n hn => ?_
    obtain ⟨p, -, rfl⟩ := List.mem_map.mp hn
    exact Bool.false_ne_true
  rw [Topology.endpoints, h.nodes_eq, List.filter_append, he, hr, List.append_nil]

theorem map_id_endpoints (h : Wiring t cs shape g position) :
    t.endpoints.map Node.id = List.range cs.length := by
  rw [h.endpoints_eq]
  exact List.ext_getElem (by simp) (by simp [endpointNodes, endpointNode])

theorem routers_eq (h : Wiring t cs shape g position) :
    t.routers = routerNodes cs.length g.positions := by
  have he : (endpointNodes cs).filter Node.isRouter = [] := by
    refine List.filter_eq_nil_iff.mpr fun n hn => ?_
    obtain ⟨i, hi, rfl⟩ := List.mem_mapIdx.mp hn
    exact Bool.false_ne_true
  have hr : (routerNodes cs.length g.positions).filter Node.isRouter =
      routerNodes cs.length g.positions := by
    refine List.filter_eq_self.mpr fun n hn => ?_
    obtain ⟨p, -, rfl⟩ := List.mem_map.mp hn
    rfl
  rw [Topology.routers, h.nodes_eq, List.filter_append, he, hr, List.nil_append]

theorem map_id_routers (h : Wiring t cs shape g position) :
    t.routers.map Node.id = (List.range g.positions).map (cs.length + ·) := by
  rw [h.routers_eq, routerNodes, List.map_map]
  rfl

/-- Routers come in the order of their numbers. -/
theorem pairwise_id_routers (h : Wiring t cs shape g position) :
    (t.routers.map Node.id).Pairwise (· < ·) := by
  rw [h.map_id_routers]
  exact List.pairwise_lt_range.map _ fun _ _ hlt => Nat.add_lt_add_left hlt _

theorem mem_map_id_routers (h : Wiring t cs shape g position) {v : Nat} :
    v ∈ t.routers.map Node.id ↔ cs.length ≤ v ∧ v < t.nodeCount := by
  rw [h.map_id_routers, List.mem_map, h.nodeCount_eq]
  constructor
  · rintro ⟨p, hp, rfl⟩
    exact ⟨Nat.le_add_right .., Nat.add_lt_add_left (List.mem_range.mp hp) _⟩
  · rintro ⟨hle, hlt⟩
    obtain ⟨p, rfl⟩ := Nat.exists_eq_add_of_le hle
    exact ⟨p, List.mem_range.mpr (Nat.lt_of_add_lt_add_left hlt), rfl⟩

end Wiring

/-! ## Links -/

/-- Two coordinates along a dimension that a step joins, in either direction. -/
def Neighbouring (wraparound : Bool) (length i j : Nat) : Prop :=
  (i, j) ∈ steps wraparound length ∨ (j, i) ∈ steps wraparound length

theorem mem_steps {w : Bool} {n i j : Nat} :
    (i, j) ∈ steps w n ↔ j = i + 1 ∧ j < n ∨ w = true ∧ 2 < n ∧ i + 1 = n ∧ j = 0 := by
  simp only [steps, List.mem_append, List.mem_map, List.mem_range, Prod.mk.injEq]
  constructor
  · rintro (⟨k, hk, rfl, rfl⟩ | h)
    · exact .inl ⟨rfl, by omega⟩
    · split at h
      · rename_i hw
        simp only [Bool.and_eq_true, decide_eq_true_eq] at hw
        simp only [List.mem_singleton, Prod.mk.injEq] at h
        exact .inr ⟨hw.1, hw.2, by omega, h.2⟩
      · cases h
  · rintro (⟨rfl, hj⟩ | ⟨rfl, hn, hi, rfl⟩)
    · exact .inl ⟨i, by omega, rfl, rfl⟩
    · refine .inr ?_
      rw [if_pos (by simp [hn])]
      simp only [List.mem_singleton, Prod.mk.injEq, and_true]
      omega

theorem Neighbouring.lt {w : Bool} {n i j : Nat} (h : Neighbouring w n i j) : i < n ∧ j < n := by
  rcases h with h | h <;> rcases mem_steps.mp h with h | h <;> omega

theorem mem_fabric {g : Grid} {first : NodeId} {shape : Shape} {l : Link} :
    l ∈ fabric g first shape ↔
      (∃ r < g.rows, ∃ i j, (i, j) ∈ steps shape.wraparound g.columns ∧
        l = internalLink shape rowWeight (first + g.index r i) (first + g.index r j)) ∨
      ∃ c < g.columns, ∃ i j, (i, j) ∈ steps shape.wraparound g.rows ∧
        l = internalLink shape columnWeight (first + g.index i c) (first + g.index j c) := by
  simp only [fabric, rowLinks, columnLinks, List.mem_append, List.mem_flatMap, List.mem_map,
    List.mem_range, Prod.exists]
  constructor
  · rintro (⟨r, hr, i, j, hs, rfl⟩ | ⟨c, hc, i, j, hs, rfl⟩)
    · exact .inl ⟨r, hr, i, j, hs, rfl⟩
    · exact .inr ⟨c, hc, i, j, hs, rfl⟩
  · rintro (⟨r, hr, i, j, hs, rfl⟩ | ⟨c, hc, i, j, hs, rfl⟩)
    · exact .inl ⟨r, hr, i, j, hs, rfl⟩
    · exact .inr ⟨c, hc, i, j, hs, rfl⟩

/-- A link of the fabric joins two routers that are neighbours along a row or along
a column. -/
theorem joins_fabric {g : Grid} {first : NodeId} {shape : Shape} {l : Link}
    (hl : l ∈ fabric g first shape) {u v : NodeId} (hj : l.Joins u v) :
    (∃ r < g.rows, ∃ i j, Neighbouring shape.wraparound g.columns i j ∧
      u = first + g.index r i ∧ v = first + g.index r j ∧
        ∃ a b, l = internalLink shape rowWeight a b) ∨
    ∃ c < g.columns, ∃ i j, Neighbouring shape.wraparound g.rows i j ∧
      u = first + g.index i c ∧ v = first + g.index j c ∧
        ∃ a b, l = internalLink shape columnWeight a b := by
  rcases mem_fabric.mp hl with ⟨r, hr, i, j, hs, rfl⟩ | ⟨c, hc, i, j, hs, rfl⟩
  · rcases hj with ⟨rfl, rfl⟩ | ⟨rfl, rfl⟩
    · exact .inl ⟨r, hr, i, j, .inl hs, rfl, rfl, _, _, rfl⟩
    · exact .inl ⟨r, hr, j, i, .inr hs, rfl, rfl, _, _, rfl⟩
  · rcases hj with ⟨rfl, rfl⟩ | ⟨rfl, rfl⟩
    · exact .inr ⟨c, hc, i, j, .inl hs, rfl, rfl, _, _, rfl⟩
    · exact .inr ⟨c, hc, j, i, .inr hs, rfl, rfl, _, _, rfl⟩

/-- Of all numbers below `n` only `i` contributes. -/
theorem flatMap_range_ite {α : Type} (xs : List α) {i n : Nat} (h : i < n) :
    ((List.range n).flatMap fun j => if j = i then xs else []) = xs := by
  induction n with
  | zero => omega
  | succ n ih =>
    rw [List.range_succ, List.flatMap_append, List.flatMap_singleton]
    by_cases e : n = i
    · subst e
      have hnil : ((List.range n).flatMap fun j => if j = n then xs else []) = [] :=
        List.flatMap_eq_nil_iff.mpr fun j hj => if_neg (Nat.ne_of_lt (List.mem_range.mp hj))
      rw [hnil, if_pos rfl, List.nil_append]
    · rw [ih (by omega), if_neg e, List.append_nil]

namespace Wiring

variable {t : Topology} {cs : ControllerSet} {shape : Shape} {g : Grid} {position : Nat → Nat}

theorem mem_links (h : Wiring t cs shape g position) {l : Link} :
    l ∈ t.links ↔ (∃ i < cs.length, l = externalLink shape i (cs.length + position i)) ∨
      l ∈ fabric g cs.length shape := by
  rw [h.links_perm.mem_iff, List.mem_append, List.mem_map]
  constructor
  · rintro (⟨i, hi, rfl⟩ | hl)
    · exact .inl ⟨i, List.mem_range.mp hi, rfl⟩
    · exact .inr hl
  · rintro (⟨i, hi, rfl⟩ | hl)
    · exact .inl ⟨i, List.mem_range.mpr hi, rfl⟩
    · exact .inr hl

/-- What a link joins: an endpoint and the router at its position, in either
direction, or two routers by the fabric. -/
theorem joins_cases (h : Wiring t cs shape g position) {l : Link} (hl : l ∈ t.links) {u v : Nat}
    (hj : l.Joins u v) :
    (u < cs.length ∧ v = cs.length + position u ∧ l = externalLink shape u v) ∨
    (v < cs.length ∧ u = cs.length + position v ∧ l = externalLink shape v u) ∨
    (∃ p < g.positions, ∃ q < g.positions, u = cs.length + p ∧ v = cs.length + q ∧
      l ∈ fabric g cs.length shape) := by
  rcases h.mem_links.mp hl with ⟨i, hi, rfl⟩ | hf
  · rcases hj with ⟨rfl, rfl⟩ | ⟨rfl, rfl⟩
    · exact .inl ⟨hi, rfl, rfl⟩
    · exact .inr (.inl ⟨hi, rfl, rfl⟩)
  · refine .inr (.inr ?_)
    rcases joins_fabric hf hj with ⟨r, hr, i, j, hn, rfl, rfl, -⟩ | ⟨c, hc, i, j, hn, rfl, rfl, -⟩
    · exact ⟨_, g.index_lt hr hn.lt.1, _, g.index_lt hr hn.lt.2, rfl, rfl, hf⟩
    · exact ⟨_, g.index_lt hn.lt.1 hc, _, g.index_lt hn.lt.2 hc, rfl, rfl, hf⟩

theorem linksInRange (h : Wiring t cs shape g position) : t.LinksInRange := by
  intro l hl
  have router {p : Nat} (hp : p < g.positions) : cs.length + p < t.nodeCount := by
    rw [h.nodeCount_eq]
    exact Nat.add_lt_add_left hp _
  have endpoint {i : Nat} (hi : i < cs.length) : i < t.nodeCount := by
    rw [h.nodeCount_eq]
    exact Nat.lt_add_right _ hi
  rcases h.joins_cases hl (.inl ⟨rfl, rfl⟩) with
    ⟨hu, hv, -⟩ | ⟨hv, hu, -⟩ | ⟨p, hp, q, hq, hu, hv, -⟩
  · exact ⟨endpoint hu, hv ▸ router (h.position_lt _ hu)⟩
  · exact ⟨hu ▸ router (h.position_lt _ hv), endpoint hv⟩
  · exact ⟨hu ▸ router hp, hv ▸ router hq⟩

/-- An endpoint has a single link. -/
theorem linksOf_endpoint (h : Wiring t cs shape g position) {i : Nat} (hi : i < cs.length) :
    t.linksOf i = [externalLink shape i (cs.length + position i)] := by
  have hne {j p : Nat} (hj : j < cs.length) : cs.length + p ≠ j := by omega
  have hp := linksOf_perm h.links_perm (v := i) (h.nodeCount_eq ▸ Nat.lt_add_right _ hi)
  have hf : (fabric g cs.length shape).flatMap (Link.entriesAt i) = [] := by
    refine List.flatMap_eq_nil_iff.mpr fun l hl => List.eq_nil_iff_forall_not_mem.mpr fun m hm => ?_
    obtain ⟨-, he⟩ := Link.mem_entriesAt.mp hm
    rcases mem_fabric.mp hl with ⟨r, -, a, b, -, rfl⟩ | ⟨c, -, a, b, -, rfl⟩ <;>
    · rcases he with he | he <;> exact hne hi he
  have he (j : Nat) (hj : j ∈ List.range cs.length) :
      (externalLink shape j (cs.length + position j)).entriesAt i =
        if j = i then [externalLink shape i (cs.length + position i)] else [] := by
    rw [Link.entriesAt_eq (hne (List.mem_range.mp hj)).symm]
    by_cases e : j = i
    · subst e
      rw [if_pos (.inl rfl), if_pos rfl]
    · rw [if_neg e, if_neg]
      rintro (c | c)
      · exact e c
      · exact hne hi c
  rw [List.flatMap_append, List.flatMap_map, List.flatMap_congr he, flatMap_range_ite _ hi, hf,
    List.append_nil] at hp
  exact List.perm_singleton.mp hp

theorem neighbours_endpoint (h : Wiring t cs shape g position) {i : Nat} (hi : i < cs.length) :
    t.neighbours i = [cs.length + position i] := by
  rw [Topology.neighbours, h.linksOf_endpoint hi]
  simp [Link.other?, externalLink]

end Wiring

end CoherentMemory.Interconnect
