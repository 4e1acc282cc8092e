import CoherentMemory.Proofs.Guarded.Fabric
import CoherentMemory.Proofs.Interconnect.GridDistance

/-!
# Guarded layouts

Layouts in guarded operations. The rows of a mesh divide the number of its controllers
once neither is zero, the corners and the compute positions that controllers take in turn
are not empty, and links are entered under nodes that exist, since a layout has its links
in range. So no layout ends in a fault as long as its nodes can be counted (`layout_eq`).

A table of links holds their positions in the list of links; `adjacency_eq` says that
looking these up gives the incidence table of the topology.
-/

namespace CoherentMemory.Guarded

open Interconnect

/-! ## The table of links -/

/-- Enters the position of a link under a node. -/
def enter (table : Array (Array Nat)) (v : NodeId) (i : Nat) : Except Fault (Array (Array Nat)) :=
  if v < table.size then .ok (table.modify v (·.push i)) else .error .outOfRange

/-- The positions of the links of each of `n` nodes. -/
def adjacency (n : Nat) (links : List Link) : Except Fault (Array (Array Nat)) :=
  links.zipIdx.foldlM (fun table l => do enter (← enter table l.1.a l.2) l.1.b l.2)
    (Array.replicate n #[])

/-- Looks up the links at the positions of a table. -/
def resolve (links : List Link) (table : Array (Array Nat)) : Array (Array (Option Link)) :=
  table.map fun row => row.map fun i => links[i]?

theorem resolve_modify (links : List Link) (table : Array (Array Nat)) (v : NodeId) {i : Nat}
    {l : Link} (hl : links[i]? = some l) {rows : Array (Array Link)}
    (h : resolve links table = rows.map (·.map some)) :
    resolve links (table.modify v (·.push i)) = (Interconnect.enter rows v l).map (·.map some) := by
  have hv (u : Nat) := congrArg (fun a => a[u]?) h
  simp only [resolve, Array.getElem?_map] at hv
  refine Array.ext_getElem? fun u => ?_
  simp only [resolve, Interconnect.enter, Array.getElem?_map, Array.getElem?_modify]
  have hu := hv u
  split
  · cases ht : table[u]? <;> cases hr : rows[u]? <;> rw [ht, hr] at hu <;> simp_all
  · exact hu

/-- Entering the positions of links under their ends enters the links in the table that
the table of positions stands for. -/
theorem foldlM_enter_eq {n : Nat} {links : List Link} (h : ∀ l ∈ links, l.a < n ∧ l.b < n)
    {entries : List (Link × Nat)} (he : ∀ e ∈ entries, links[e.2]? = some e.1)
    {table : Array (Array Nat)} (hsize : table.size = n) {rows : Array (Array Link)}
    (hrows : resolve links table = rows.map (·.map some)) :
    ∃ table', entries.foldlM (fun table l => do enter (← enter table l.1.a l.2) l.1.b l.2)
        table = .ok table' ∧ resolve links table' = ((entries.map Prod.fst).foldl
          (fun table l => Interconnect.enter (Interconnect.enter table l.a l) l.b l) rows).map
            (·.map some) := by
  induction entries generalizing table rows with
  | nil => exact ⟨table, rfl, hrows⟩
  | cons e entries ih =>
    obtain ⟨l, i⟩ := e
    rw [List.forall_mem_cons] at he
    have hl : links[i]? = some l := he.1
    obtain ⟨ha, hb⟩ := h l (List.mem_of_getElem? hl)
    have hfirst := resolve_modify links table l.a hl hrows
    have hsecond := resolve_modify links _ l.b hl hfirst
    have hstep : (do enter (← enter table l.a i) l.b i) =
        Except.ok ((table.modify l.a (·.push i)).modify l.b (·.push i)) := by
      rw [enter, if_pos (hsize.symm ▸ ha), ok_bind, enter,
        if_pos (by rw [Array.size_modify, hsize]; exact hb)]
    rw [List.foldlM_cons, hstep, ok_bind]
    exact ih he.2 (by rw [Array.size_modify, Array.size_modify, hsize]) hsecond

/-- The table of links whose ends exist, and what it stands for. -/
theorem adjacency_eq (n : Nat) (links : List Link) (h : ∀ l ∈ links, l.a < n ∧ l.b < n) :
    ∃ table, adjacency n links = .ok table ∧
      resolve links table = (incidence n links).map (·.map some) := by
  have hentries : ∀ e ∈ links.zipIdx, links[e.2]? = some e.1 := fun e he =>
    List.mem_zipIdx_iff_getElem?.mp he
  have hempty : resolve links (Array.replicate n #[]) =
      (Array.replicate n (#[] : Array Link)).map (·.map some) := by
    simp [resolve]
  obtain ⟨table, htable, hresolve⟩ := foldlM_enter_eq h hentries Array.size_replicate hempty
  rw [List.zipIdx_map_fst] at hresolve
  exact ⟨table, htable, hresolve⟩

/-- The topology of nodes and links, once its table is made. -/
def ofLinks (kind : Kind) (nodes : List Node) (links : List Link) (grid : Option Grid) :
    Except Fault Topology := do
  let _ ← adjacency nodes.length links
  return .ofLinks kind nodes links grid

theorem ofLinks_eq {kind : Kind} {nodes : List Node} {links : List Link} {grid : Option Grid}
    (h : (Topology.ofLinks kind nodes links grid).LinksInRange) :
    ofLinks kind nodes links grid = .ok (.ofLinks kind nodes links grid) := by
  obtain ⟨table, htable, -⟩ := adjacency_eq nodes.length links h
  rw [ofLinks, htable]
  rfl

/-! ## Placement -/

/-- The grid that the placed controllers fill. -/
def meshGrid (cs : ControllerSet) (rows : Nat) : Stage TopologyError Grid :=
  if cs.isEmpty then throw .noControllers
  else
    let nodes := cs.placed.length
    if rows = 0 ∨ nodes = 0 then throw (.invalidMeshShape nodes rows)
    else do
      let rest ← rem nodes rows
      if rest ≠ 0 then throw (.invalidMeshShape nodes rows)
      else do
        let columns ← div nodes rows
        let grid ← (entry (Grid.ofDimensions? rows columns) : Except Fault Grid)
        return grid

/-- The element that comes up after `turn` elements of `xs` repeated in turn. -/
def takeTurn (xs : List Nat) (turn : Nat) : Except Fault Nat := do
  entry xs[← rem turn xs.length]?

/-- The positions of controllers when `directories` directories and `others` other
controllers are placed already. -/
def cornerPlacementFrom (corners compute : List Nat) : (directories others : Nat) →
    List Controller → Except Fault (List Nat)
  | _, _, [] => .ok []
  | d, o, c :: cs =>
    if c.isDirectory then do
      let p ← takeTurn corners d
      return p :: (← cornerPlacementFrom corners compute (← add d 1) o cs)
    else do
      let p ← takeTurn compute o
      return p :: (← cornerPlacementFrom corners compute d (← add o 1) cs)

/-- The grid positions of the placed controllers. -/
def placement (kind : Kind) (g : Grid) (cs : ControllerSet) : Except Fault (List Nat) :=
  match kind with
  | .meshDirCorner => do
    let corners ← corners g
    let compute ← computePositions g
    let placed ← cs.placed.mapM fun i => entry cs[i]?
    cornerPlacementFrom corners compute 0 0 placed
  | .mesh | .crossbar => .ok (List.range cs.placed.length)

section Placement

variable {g : Grid} {cs : ControllerSet}

theorem meshGrid_eq (cs : ControllerSet) (rows : Nat) :
    (meshGrid cs rows).run = .ok (Interconnect.meshGrid cs rows) := by
  unfold meshGrid Interconnect.meshGrid
  split
  · rfl
  simp only
  by_cases hzero : rows = 0 ∨ cs.placed.length = 0
  · -- a grid without cells is refused by its dimensions
    have hnone : Grid.ofDimensions? rows (cs.placed.length / rows) = none := by
      refine dif_neg fun h => ?_
      rcases hzero with e | e
      · omega
      · rw [e, Nat.zero_div] at h
        omega
    rw [if_pos hzero, hnone]
    split <;> rfl
  · rw [not_or] at hzero
    have hrows : 0 < rows := Nat.pos_of_ne_zero hzero.1
    rw [if_neg (not_or.mpr hzero)]
    refine Stage.lift_bind_eq (rem_eq hrows) ?_
    by_cases hrest : cs.placed.length % rows = 0
    · rw [if_neg (not_not.mpr hrest), if_pos hrest]
      refine Stage.lift_bind_eq (div_eq hrows) ?_
      have hle := Nat.le_of_dvd (Nat.pos_of_ne_zero hzero.2) (Nat.dvd_of_mod_eq_zero hrest)
      have hcolumns : 0 < cs.placed.length / rows := Nat.div_pos hle hrows
      have hgrid : Grid.ofDimensions? rows (cs.placed.length / rows) =
        some ⟨rows, cs.placed.length / rows, hrows, hcolumns⟩ := dif_pos ⟨hrows, hcolumns⟩
      rw [hgrid]
      rfl
    · rw [if_pos hrest, if_neg hrest]
      rfl

theorem takeTurn_eq {xs : List Nat} (h : xs ≠ []) (turn : Nat) :
    takeTurn xs turn = .ok (Interconnect.takeTurn xs turn) := by
  rw [takeTurn, rem_eq (List.length_pos_iff.mpr h), ok_bind, getElem?_takeTurn h]
  rfl

theorem cornerPlacementFrom_eq (g : Grid) {d o : Nat} {cs : List Controller}
    (h : d + o + cs.length < 2 ^ 64) :
    cornerPlacementFrom g.corners g.computePositions d o cs =
      .ok (Interconnect.cornerPlacementFrom g d o cs) := by
  have hcompute : g.computePositions ≠ [] := fun e =>
    g.corners_ne_nil (List.append_eq_nil_iff.mp e).2
  induction cs generalizing d o with
  | nil => rfl
  | cons c cs ih =>
    rw [List.length_cons] at h
    unfold cornerPlacementFrom Interconnect.cornerPlacementFrom
    split
    · rw [takeTurn_eq g.corners_ne_nil, ok_bind, add_eq (by omega), ok_bind, ih (by omega)]
      rfl
    · rw [takeTurn_eq hcompute, ok_bind, add_eq (by omega), ok_bind, ih (by omega)]
      rfl

/-- The controllers at the positions of a selection are the selected ones. -/
theorem map_getElem?_positions (cs : ControllerSet) (p : Controller → Bool) :
    (cs.positions p).map (fun i => cs[i]?) = (cs.filter p).map some := by
  have hfst : cs.filter p = (cs.zipIdx.filter fun c => p c.1).map Prod.fst := by
    conv => lhs; rw [← List.zipIdx_map_fst 0 cs, List.filter_map]
    rfl
  rw [hfst, ControllerSet.positions, List.map_map, List.map_map]
  exact List.map_congr_left fun c hc =>
    List.mem_zipIdx_iff_getElem?.mp (List.mem_of_mem_filter hc)

theorem placement_eq (kind : Kind) (hg : cs.placed.length = g.positions)
    (hcs : cs.length < 2 ^ 64) : placement kind g cs = .ok (Interconnect.placement kind g cs) := by
  have hlen : (cs.filter Controller.isPlaced).length = cs.placed.length := by
    rw [cs.length_placed, List.countP_eq_length_filter]
  have hle := cs.length_placed_le
  cases kind with
  | mesh | crossbar => rfl
  | meshDirCorner =>
    have hplaced : cs.placed.mapM (fun i => entry cs[i]?) = .ok (cs.filter Controller.isPlaced) :=
      mapM_entry (map_getElem?_positions cs Controller.isPlaced)
    rw [placement, corners_eq (by omega), ok_bind, computePositions_eq (by omega), ok_bind, hplaced,
      ok_bind, cornerPlacementFrom_eq g (by omega)]
    rfl

end Placement

/-! ## Layouts -/

/-- All endpoints at one router. -/
def crossbar (cs : ControllerSet) (shape : Shape) : Stage TopologyError Topology :=
  if cs.isEmpty then throw .noControllers
  else
    let links := (List.range cs.length).map fun i => externalLink shape i cs.length
    ofLinks .crossbar (endpointNodes cs ++ Interconnect.routerNodes cs.length 1) links none

/-- The external links of a mesh. -/
def meshExternalLinks (kind : Kind) (g : Grid) (cs : ControllerSet) (shape : Shape) :
    Except Fault (List Link) := do
  let placed ← (cs.placed.zip (← placement kind g cs)).mapM fun p => do
    return externalLink shape p.1 (← add cs.length p.2)
  return placed ++ cs.unplaced.map fun i => externalLink shape i cs.length

/-- The mesh of the given family over a grid. -/
def meshOver (kind : Kind) (g : Grid) (cs : ControllerSet) (shape : Shape) :
    Except Fault Topology := do
  let external ← meshExternalLinks kind g cs shape
  let routers ← routerNodes g cs.length
  let internal ← fabric g cs.length shape
  ofLinks kind (endpointNodes cs ++ routers) (external ++ internal) (some g)

/-- The topology of a family over the controllers of a system. -/
def layout (kind : Kind) (cs : ControllerSet) (shape : Shape) : Stage TopologyError Topology :=
  match kind with
  | .crossbar => crossbar cs shape
  | .mesh => do meshOver .mesh (← meshGrid cs shape.rows) cs shape
  | .meshDirCorner => do meshOver .meshDirCorner (← meshGrid cs shape.rows) cs shape

section Layout

variable {g : Grid} {cs : ControllerSet} {shape : Shape}

theorem crossbar_eq (cs : ControllerSet) (shape : Shape) :
    (crossbar cs shape).run = .ok (Interconnect.crossbar cs shape) := by
  cases h : cs.isEmpty with
  | true => simp only [crossbar, Interconnect.crossbar, h]; rfl
  | false =>
    have hok : Interconnect.crossbar cs shape = .ok _ :=
      if_neg (by rw [h]; exact Bool.false_ne_true)
    have hr := (crossbar_wiring hok).1.linksInRange
    rw [hok, crossbar, h]
    exact Stage.lift_eq (ofLinks_eq hr)

theorem meshExternalLinks_eq (kind : Kind) (hg : cs.placed.length = g.positions)
    (hcs : cs.length + g.positions < 2 ^ 64) :
    meshExternalLinks kind g cs shape = .ok (Interconnect.meshExternalLinks kind g cs shape) := by
  have hplaced : ((cs.placed.zip (Interconnect.placement kind g cs)).mapM fun p => do
      return externalLink shape p.1 (← add cs.length p.2)) = Except.ok
        ((cs.placed.zip (Interconnect.placement kind g cs)).map fun p =>
          externalLink shape p.1 (cs.length + p.2)) := by
    refine mapM_eq fun p hp => ?_
    have hlt := lt_of_mem_placement hg (List.of_mem_zip hp).2
    rw [add_eq (by omega)]
    rfl
  rw [meshExternalLinks, placement_eq kind hg (by omega), ok_bind, hplaced, ok_bind,
    Interconnect.meshExternalLinks, List.map_zip_eq_zipWith]
  rfl

theorem meshOver_eq (kind : Kind) (hg : cs.placed.length = g.positions)
    (hcs : cs.length + g.positions < 2 ^ 64) :
    meshOver kind g cs shape = .ok (Interconnect.meshOver kind g cs shape) := by
  obtain ⟨position, hw⟩ := meshOver_wiring kind hg shape
  rw [meshOver, meshExternalLinks_eq kind hg hcs, ok_bind, routerNodes_eq hcs, ok_bind,
    fabric_eq hcs, ok_bind]
  exact ofLinks_eq hw.linksInRange

/-- No layout of controllers that can be counted twice ends in a fault. -/
theorem layout_eq (kind : Kind) (hcs : 2 * cs.length < 2 ^ 64) (shape : Shape) :
    (layout kind cs shape).run = .ok (Interconnect.layout kind cs shape) := by
  have mesh (kind : Kind) :
      (do meshOver kind (← meshGrid cs shape.rows) cs shape : Stage TopologyError Topology).run =
        .ok (meshOf kind cs shape) := by
    have e : meshOf kind cs shape = (Interconnect.meshGrid cs shape.rows).bind fun g =>
        .ok (Interconnect.meshOver kind g cs shape) := by
      rw [meshOf]
      cases Interconnect.meshGrid cs shape.rows <;> rfl
    rw [e]
    refine Stage.bind_eq (meshGrid_eq cs shape.rows) fun g hgrid => ?_
    obtain ⟨-, hg⟩ := meshGrid_eq_ok hgrid
    have hle := cs.length_placed_le
    exact Stage.lift_eq (meshOver_eq kind hg (by omega))
  cases kind with
  | crossbar => exact crossbar_eq cs shape
  | mesh => exact mesh .mesh
  | meshDirCorner => exact mesh .meshDirCorner

end Layout

end CoherentMemory.Guarded
