import CoherentMemory.Proofs.Interconnect.Corners
import CoherentMemory.Proofs.Interconnect.WellFormed
import CoherentMemory.Proofs.Positions

/-!
# Where controllers are placed

The router that the endpoint of a controller attaches to (`Topology.AttachesTo`). The name of a
controller finds that of the first one that has it (`Wiring.attachmentOf?_eq_some`). In the
meshes of both families a placed controller attaches to the router at its position, a device
controller to the one at position zero (`attachesTo_placed`, `attachesTo_unplaced`). With the
directories at the corners, the position of a controller is decided by how many of its kind
come before it (`getElem?_cornerPlacementFrom`), which the controllers of other kinds in between do
not change (`getElem?_placement_meshDirCorner`): directories take the corners in turn, and
sequencers each a position of their own, the corners last. `layout_placement` puts this together
as `CornerPlaced`, and compares two sets of controllers on the same grid.
-/

namespace CoherentMemory.Interconnect

namespace Topology

/-- The node `i` has a single neighbour, the router `v`. -/
structure AttachesTo (t : Topology) (i v : NodeId) : Prop where
  neighbours_eq : t.neighbours i = [v]
  isRouter : t.isRouter v = true

theorem AttachesTo.unique {t : Topology} {i v w : NodeId} (hv : t.AttachesTo i v)
    (hw : t.AttachesTo i w) : v = w :=
  List.singleton_inj.mp (hv.neighbours_eq.symm.trans hw.neighbours_eq)

/-- The number of directories that attach to a router. -/
def directoriesAt (t : Topology) (cs : ControllerSet) (v : NodeId) : Nat :=
  (cs.positions Controller.isDirectory).countP fun i => t.neighbours i = [v]

end Topology

/-! ## Meshes -/

/-- The router of an endpoint is the one that its link leads to. -/
theorem Wiring.attachesTo_of_mem {t : Topology} {cs : ControllerSet} {shape : Shape} {g : Grid}
    {position : Nat → Nat} (h : Wiring t cs shape g position) {i p : Nat}
    (hl : externalLink shape i (cs.length + p) ∈ t.links) : t.AttachesTo i (cs.length + p) := by
  obtain ⟨i', hi', e⟩ := h.external_of_kind hl rfl
  simp only [externalLink, Link.mk.injEq, and_true] at e
  obtain ⟨rfl, e⟩ := e
  rw [e]
  exact ⟨h.neighbours_endpoint hi', h.isRouter_router (h.position_lt i hi')⟩

/-! ## Names -/

namespace Wiring

variable {t : Topology} {cs : ControllerSet} {shape : Shape} {g : Grid} {position : Nat → Nat}

/-- The endpoint with a name is that of the first controller with the name. -/
theorem endpointNamed?_eq_some (h : Wiring t cs shape g position) {name : String} {i : Nat}
    (hi : cs.findIdx? (fun c => c.name = name) = some i) :
    ∃ c, cs[i]? = some c ∧ t.endpointNamed? name = some (endpointNode i c) := by
  obtain ⟨hlt, hname, hfirst⟩ := List.findIdx?_eq_some_iff_getElem.mp hi
  refine ⟨cs[i], List.getElem?_eq_getElem hlt, ?_⟩
  have hnamed {j : Nat} (hj : j < cs.length) :
      (endpointNode j cs[j]).controllerName? = some cs[j].name := rfl
  rw [Topology.endpointNamed?, h.endpoints_eq, List.find?_eq_some_iff_getElem]
  simp only [endpointNodes, List.getElem_mapIdx, List.length_mapIdx, hnamed, Option.some.injEq]
  refine ⟨hname, i, hlt, rfl, fun j hj => ?_⟩
  simpa using hfirst j hj

theorem attachmentOf?_eq_some (h : Wiring t cs shape g position) {name : String} {i : Nat}
    (hi : cs.findIdx? (fun c => c.name = name) = some i) :
    ∃ v, t.AttachesTo i v ∧ t.attachmentOf? name = some v := by
  obtain ⟨c, hc, hn⟩ := h.endpointNamed?_eq_some hi
  have hlt := (List.getElem?_eq_some_iff.mp hc).1
  have hrouter := h.isRouter_router (h.position_lt i hlt)
  have hid : (endpointNode i c).id = i := rfl
  refine ⟨_, ⟨h.neighbours_endpoint hlt, hrouter⟩, ?_⟩
  rw [Topology.attachmentOf?, hn, Option.bind_some, hid, h.neighbours_endpoint hlt,
    List.find?_cons_of_pos hrouter]

/-- Only a name that no controller has is not found. -/
theorem attachmentOf?_eq_none_iff (h : Wiring t cs shape g position) (name : String) :
    t.attachmentOf? name = none ↔ ∀ c ∈ cs, c.name ≠ name := by
  constructor
  · intro hnone c hc hname
    cases hi : cs.findIdx? (fun c => c.name = name) with
    | none =>
      have hne := List.findIdx?_eq_none_iff.mp hi c hc
      exact of_decide_eq_false hne hname
    | some i =>
      obtain ⟨v, -, hv⟩ := h.attachmentOf?_eq_some hi
      cases hnone.symm.trans hv
  · intro hname
    have hnone : t.endpointNamed? name = none := by
      rw [Topology.endpointNamed?, h.endpoints_eq, List.find?_eq_none]
      intro n hn
      obtain ⟨i, hi, rfl⟩ := List.mem_mapIdx.mp hn
      have hne : cs[i].name ≠ name := hname cs[i] (List.getElem_mem hi)
      simpa [endpointNode, Node.controllerName?] using hne
    rw [Topology.attachmentOf?, hnone, Option.bind_none]

end Wiring

section Mesh

variable {kind : Kind} {g : Grid} {cs : ControllerSet} {shape : Shape}
variable (hg : cs.placed.length = g.positions)
include hg

theorem attachesTo_of_mem_placements {i p : Nat} (h : (i, p) ∈ placements kind g cs) :
    (meshOver kind g cs shape).AttachesTo i (cs.length + p) := by
  obtain ⟨position, hw⟩ := meshOver_wiring kind hg shape
  apply hw.attachesTo_of_mem
  show _ ∈ meshExternalLinks kind g cs shape ++ fabric g cs.length shape
  rw [meshExternalLinks_eq]
  exact List.mem_append_left _ (List.mem_map.mpr ⟨_, h, rfl⟩)

/-- The `k`-th placed controller attaches to the `k`-th position of the placement. -/
theorem attachesTo_placed {k i p : Nat} (hi : cs.placed[k]? = some i)
    (hp : (placement kind g cs)[k]? = some p) :
    (meshOver kind g cs shape).AttachesTo i (cs.length + p) := by
  apply attachesTo_of_mem_placements hg
  have hzip : (cs.placed.zip (placement kind g cs))[k]? = some (i, p) :=
    List.getElem?_zip_eq_some.mpr ⟨hi, hp⟩
  exact List.mem_append_left _ (List.mem_of_getElem? hzip)

/-- A device controller attaches to the router at position zero. -/
theorem attachesTo_unplaced {i : Nat} (hi : i ∈ cs.unplaced) :
    (meshOver kind g cs shape).AttachesTo i cs.length := by
  apply attachesTo_of_mem_placements hg (p := 0)
  exact List.mem_append_right _ (List.mem_map.mpr ⟨i, hi, rfl⟩)

end Mesh

/-! ## Directories at the corners -/

/-- The position of a controller is decided by how many of its kind come before it. -/
theorem getElem?_cornerPlacementFrom (g : Grid) (d o : Nat) (cs : List Controller) (k : Nat) :
    (cornerPlacementFrom g d o cs)[k]? = cs[k]?.map fun c =>
      if c.isDirectory then takeTurn g.corners (d + (cs.take k).countP Controller.isDirectory)
      else takeTurn g.computePositions (o + (cs.take k).countP fun c => !c.isDirectory) := by
  induction cs generalizing d o k with
  | nil => rfl
  | cons c cs ih =>
    by_cases hc : c.isDirectory = true
    · cases k with
      | zero => simp [cornerPlacementFrom, hc]
      | succ k => simp [cornerPlacementFrom, hc, ih, Nat.add_assoc, Nat.add_comm 1]
    · cases k with
      | zero => simp [cornerPlacementFrom, hc]
      | succ k => simp [cornerPlacementFrom, hc, ih, Nat.add_assoc, Nat.add_comm 1]

theorem isDirectory_and_isPlaced (c : Controller) :
    (c.isDirectory && c.isPlaced) = c.isDirectory := by
  obtain ⟨name, version, duty⟩ := c
  cases duty <;> rfl

/-- Of the controllers that are placed, those that are no directories are sequencers. -/
theorem not_isDirectory_and_isPlaced (c : Controller) :
    (!c.isDirectory && c.isPlaced) = c.isSequencer := by
  obtain ⟨name, version, duty⟩ := c
  cases duty <;> rfl

theorem isPlaced_of_isDirectory {c : Controller} (h : c.isDirectory = true) :
    c.isPlaced = true := by
  rw [← isDirectory_and_isPlaced, Bool.and_eq_true] at h
  exact h.2

theorem of_isSequencer {c : Controller} (h : c.isSequencer = true) :
    c.isDirectory = false ∧ c.isPlaced = true := by
  rw [← not_isDirectory_and_isPlaced, Bool.and_eq_true, Bool.not_eq_true'] at h
  exact h

section Corners

variable {g : Grid} {cs : ControllerSet} {shape : Shape}

/-- Only controllers of its own kind before it decide the position of a controller. -/
theorem getElem?_placement_meshDirCorner {i : Nat} {c : Controller} (hc : cs[i]? = some c)
    (hp : c.isPlaced = true) :
    (placement .meshDirCorner g cs)[(cs.take i).countP Controller.isPlaced]? = some
      (if c.isDirectory then takeTurn g.corners ((cs.take i).countP Controller.isDirectory)
      else takeTurn g.computePositions ((cs.take i).countP Controller.isSequencer)) := by
  show (cornerPlacementFrom g 0 0 (cs.filter Controller.isPlaced))[_]? = _
  rw [getElem?_cornerPlacementFrom, getElem?_filter_of_getElem? hc hp, take_filter]
  simp only [List.countP_filter, isDirectory_and_isPlaced, not_isDirectory_and_isPlaced,
    Nat.zero_add, Option.map_some]

variable (hg : cs.placed.length = g.positions)
include hg

theorem attachesTo_directory {j i : Nat} (hi : (cs.positions Controller.isDirectory)[j]? = some i) :
    (meshOver .meshDirCorner g cs shape).AttachesTo i (cs.length + takeTurn g.corners j) := by
  obtain ⟨⟨c, hc, hd⟩, rfl⟩ := ControllerSet.getElem?_positions_iff.mp hi
  have hp := isPlaced_of_isDirectory hd
  have hplace := getElem?_placement_meshDirCorner (g := g) hc hp
  rw [if_pos hd] at hplace
  exact attachesTo_placed hg (ControllerSet.getElem?_positions_iff.mpr ⟨⟨c, hc, hp⟩, rfl⟩) hplace

/-- There are enough compute positions for all sequencers. -/
theorem lt_length_computePositions {j i : Nat}
    (hi : (cs.positions Controller.isSequencer)[j]? = some i) : j < g.computePositions.length := by
  have hlt := (List.getElem?_eq_some_iff.mp hi).1
  have hle : cs.countP Controller.isSequencer ≤ cs.countP Controller.isPlaced :=
    List.countP_mono_left fun c _ hs => (of_isSequencer hs).2
  rw [ControllerSet.length_positions] at hlt
  rw [g.length_computePositions, ← hg, cs.length_placed]
  omega

theorem attachesTo_sequencer {j i : Nat} (hi : (cs.positions Controller.isSequencer)[j]? = some i) :
    (meshOver .meshDirCorner g cs shape).AttachesTo i
      (cs.length + takeTurn g.computePositions j) := by
  obtain ⟨⟨c, hc, hs⟩, rfl⟩ := ControllerSet.getElem?_positions_iff.mp hi
  obtain ⟨hd, hp⟩ := of_isSequencer hs
  have hplace := getElem?_placement_meshDirCorner (g := g) hc hp
  rw [hd, if_neg Bool.false_ne_true] at hplace
  exact attachesTo_placed hg (ControllerSet.getElem?_positions_iff.mpr ⟨⟨c, hc, hp⟩, rfl⟩) hplace

/-- No corner has two directories more than another one. -/
theorem directoriesAt_le {p q : Nat} (hp : p ∈ g.corners) (hq : q ∈ g.corners) :
    (meshOver .meshDirCorner g cs shape).directoriesAt cs (cs.length + p) ≤
      (meshOver .meshDirCorner g cs shape).directoriesAt cs (cs.length + q) + 1 := by
  -- a corner has the directories whose number leaves its own as the remainder
  have count {x : Nat} (hx : x < g.corners.length) :
      (meshOver .meshDirCorner g cs shape).directoriesAt cs (cs.length + g.corners[x]) =
        (List.range (cs.positions Controller.isDirectory).length).countP
          fun j => j % g.corners.length = x := by
    refine countP_eq_countP_range fun j i hi => ?_
    have hj : j % g.corners.length < g.corners.length := Nat.mod_lt _ (Nat.zero_lt_of_lt hx)
    have hturn : takeTurn g.corners j = g.corners[j % g.corners.length] := by
      have h := getElem?_takeTurn g.corners_ne_nil j
      rw [List.getElem?_eq_getElem hj] at h
      exact (Option.some.inj h).symm
    rw [(attachesTo_directory hg hi).neighbours_eq, hturn]
    refine decide_eq_decide.mpr ?_
    rw [List.singleton_inj, Nat.add_left_cancel_iff]
    exact g.nodup_corners.getElem_inj_iff
  obtain ⟨x, hx, rfl⟩ := List.mem_iff_getElem.mp hp
  obtain ⟨y, hy, rfl⟩ := List.mem_iff_getElem.mp hq
  rw [count hx, count hy]
  exact countP_mod_le _ hx hy

end Corners

/-- How the controllers `cs` stand on the grid `g` with the directories at its corners. -/
structure CornerPlaced (t : Topology) (cs : ControllerSet) (g : Grid) : Prop where
  /-- Directories take the corners in turn. -/
  directory : ∀ {j i : Nat}, (cs.positions Controller.isDirectory)[j]? = some i →
    ∃ p, g.corners[j % g.corners.length]? = some p ∧ t.AttachesTo i (cs.length + p)
  balanced : ∀ {p q : Nat}, p ∈ g.corners → q ∈ g.corners →
    t.directoriesAt cs (cs.length + p) ≤ t.directoriesAt cs (cs.length + q) + 1
  /-- Sequencers take the compute positions one after the other. -/
  sequencer : ∀ {j i : Nat}, (cs.positions Controller.isSequencer)[j]? = some i →
    ∃ p, g.computePositions[j]? = some p ∧ t.AttachesTo i (cs.length + p)
  sequencer_inj : ∀ {i i' v : Nat}, i ∈ cs.positions Controller.isSequencer →
    i' ∈ cs.positions Controller.isSequencer → t.AttachesTo i v → t.AttachesTo i' v → i = i'
  /-- Before a sequencer takes a corner, others have taken all cells that are none. -/
  corners_last : ∀ {i p : Nat}, i ∈ cs.positions Controller.isSequencer → p ∈ g.corners →
    t.AttachesTo i (cs.length + p) → ∀ q < g.positions, q ∉ g.corners →
      ∃ i' < i, i' ∈ cs.positions Controller.isSequencer ∧ t.AttachesTo i' (cs.length + q)
  device : ∀ {i : Nat}, i ∈ cs.positions Controller.isDma → t.AttachesTo i cs.length

theorem meshOver_cornerPlaced {g : Grid} {cs : ControllerSet}
    (hg : cs.placed.length = g.positions) (shape : Shape) :
    CornerPlaced (meshOver .meshDirCorner g cs shape) cs g := by
  have directory {j i : Nat} (hi : (cs.positions Controller.isDirectory)[j]? = some i) :
      ∃ p, g.corners[j % g.corners.length]? = some p ∧
        (meshOver .meshDirCorner g cs shape).AttachesTo i (cs.length + p) :=
    ⟨_, getElem?_takeTurn g.corners_ne_nil j, attachesTo_directory hg hi⟩
  have sequencer {j i : Nat} (hi : (cs.positions Controller.isSequencer)[j]? = some i) :
      ∃ p, g.computePositions[j]? = some p ∧
        (meshOver .meshDirCorner g cs shape).AttachesTo i (cs.length + p) :=
    ⟨_, getElem?_of_lt_length (lt_length_computePositions hg hi), attachesTo_sequencer hg hi⟩
  have place {i p : Nat} (hi : i ∈ cs.positions Controller.isSequencer)
      (hp : (meshOver .meshDirCorner g cs shape).AttachesTo i (cs.length + p)) :
      ∃ j : Nat, (cs.positions Controller.isSequencer)[j]? = some i ∧
        g.computePositions[j]? = some p := by
    obtain ⟨j, hj⟩ := List.getElem?_of_mem hi
    obtain ⟨p', hp', ha⟩ := sequencer hj
    rw [Nat.add_left_cancel (hp.unique ha)]
    exact ⟨j, hj, hp'⟩
  refine {
    directory := directory
    balanced := directoriesAt_le hg
    sequencer := sequencer
    sequencer_inj := fun {i i' v} hi hi' hv hv' => ?_
    corners_last := fun {i p} hi hp ha q hq hqc => ?_
    device := attachesTo_unplaced hg }
  · obtain ⟨j, hj⟩ := List.getElem?_of_mem hi
    obtain ⟨p, hp, ha⟩ := sequencer hj
    cases hv.unique ha
    obtain ⟨j', hj', hp'⟩ := place hi' hv'
    -- no compute position comes up twice
    have hlt := (List.getElem?_eq_some_iff.mp hp).1
    have e : j = j' := (List.getElem?_inj hlt g.nodup_computePositions).mp (hp.trans hp'.symm)
    rw [e] at hj
    exact Option.some.inj (hj.symm.trans hj')
  · obtain ⟨j, hj, hpj⟩ := place hi ha
    obtain ⟨j', hlt, hq'⟩ := Grid.exists_lt_of_mem_corners hpj hp hq hqc
    have hjl := (List.getElem?_eq_some_iff.mp hj).1
    have hi' := List.getElem?_eq_getElem (Nat.lt_trans hlt hjl)
    obtain ⟨q', hq'', ha'⟩ := sequencer hi'
    cases hq'.symm.trans hq''
    refine ⟨_, ?_, List.mem_of_getElem? hi', ha'⟩
    have hord := List.pairwise_iff_getElem.mp (cs.pairwise_positions Controller.isSequencer)
      j' j (Nat.lt_trans hlt hjl) hjl hlt
    rw [← (List.getElem?_eq_some_iff.mp hj).2]
    exact hord

/-- The controllers of one kind stand at the same positions in both topologies, the `j`-th of
the one where the `j`-th of the other stands. -/
def PlacedAlike (kind : Controller → Bool) (t : Topology) (cs : ControllerSet) (t' : Topology)
    (cs' : ControllerSet) : Prop :=
  ∀ {j i i' : Nat}, (cs.positions kind)[j]? = some i → (cs'.positions kind)[j]? = some i' →
    ∃ p, t.AttachesTo i (cs.length + p) ∧ t'.AttachesTo i' (cs'.length + p)

namespace CornerPlaced

variable {t : Topology} {cs : ControllerSet} {g : Grid}

theorem directory_attachesTo (h : CornerPlaced t cs g) {j i p : Nat}
    (hi : (cs.positions Controller.isDirectory)[j]? = some i)
    (hp : g.corners[j % g.corners.length]? = some p) : t.AttachesTo i (cs.length + p) := by
  obtain ⟨p', hp', ha⟩ := h.directory hi
  cases hp.symm.trans hp'
  exact ha

theorem sequencer_attachesTo (h : CornerPlaced t cs g) {j i p : Nat}
    (hi : (cs.positions Controller.isSequencer)[j]? = some i)
    (hp : g.computePositions[j]? = some p) : t.AttachesTo i (cs.length + p) := by
  obtain ⟨p', hp', ha⟩ := h.sequencer hi
  cases hp.symm.trans hp'
  exact ha

end CornerPlaced

theorem CornerPlaced.placedAlike {t t' : Topology} {cs cs' : ControllerSet} {g : Grid}
    (h : CornerPlaced t cs g) (h' : CornerPlaced t' cs' g) :
    PlacedAlike Controller.isSequencer t cs t' cs' ∧
      PlacedAlike Controller.isDirectory t cs t' cs' := by
  constructor
  · intro j i i' hi hi'
    obtain ⟨p, hp, ha⟩ := h.sequencer hi
    exact ⟨p, ha, h'.sequencer_attachesTo hi' hp⟩
  · intro j i i' hi hi'
    obtain ⟨p, hp, ha⟩ := h.directory hi
    exact ⟨p, ha, h'.directory_attachesTo hi' hp⟩

/-- The layouts with directories at the corners are placed as documented. -/
theorem layout_cornerPlaced {cs : ControllerSet} {shape : Shape} {t : Topology}
    (h : layout .meshDirCorner cs shape = .ok t) :
    ∃ g, t.grid = some g ∧ g.rows = shape.rows ∧ g.positions = cs.placed.length ∧
      CornerPlaced t cs g := by
  obtain ⟨g, hgrid, rfl⟩ := map_eq_ok.mp h
  obtain ⟨hrows, hplaced⟩ := meshGrid_eq_ok hgrid
  exact ⟨g, rfl, hrows, hplaced.symm, meshOver_cornerPlaced hplaced shape⟩

/-- Placement with the directories at the corners of the grid, of which each comes once: the
directories take them in turn, no router has two sequencers, corners are the last that
sequencers take, and the device controllers share the first router. Where the `j`-th
sequencer or directory stands is the same for all controllers and shapes with this grid. -/
theorem layout_placement {cs : ControllerSet} {shape : Shape} {t : Topology}
    (h : layout .meshDirCorner cs shape = .ok t) :
    ∃ g, t.grid = some g ∧ g.rows = shape.rows ∧ g.positions = cs.placed.length ∧
      g.corners.Nodup ∧
      (∀ p, p ∈ g.corners ↔ p = g.index 0 0 ∨ p = g.index 0 (g.columns - 1) ∨
        p = g.index (g.rows - 1) 0 ∨ p = g.index (g.rows - 1) (g.columns - 1)) ∧
      CornerPlaced t cs g ∧
      ∀ {cs' : ControllerSet} {shape' : Shape} {t' : Topology},
        layout .meshDirCorner cs' shape' = .ok t' → t'.grid = some g →
          PlacedAlike Controller.isSequencer t cs t' cs' ∧
            PlacedAlike Controller.isDirectory t cs t' cs' := by
  obtain ⟨g, hgrid, hrows, hplaced, hcorner⟩ := layout_cornerPlaced h
  refine ⟨g, hgrid, hrows, hplaced, g.nodup_corners, fun p => Grid.mem_corners, hcorner, ?_⟩
  intro cs' shape' t' h' hg'
  obtain ⟨g', hgrid', -, -, hcorner'⟩ := layout_cornerPlaced h'
  cases hgrid'.symm.trans hg'
  exact hcorner.placedAlike hcorner'

/-- Two rows of three, and controllers of all kinds mixed: the third sequencer is the first one
at a corner, where it meets a directory and the device controller. -/
theorem layout_placement_mixed : ∃ t, layout .meshDirCorner .mixed { rows := 2 } = .ok t ∧
    t.AttachesTo 0 7 ∧ t.AttachesTo 1 8 ∧ t.AttachesTo 2 7 ∧ t.AttachesTo 3 11 ∧
    t.AttachesTo 4 9 ∧ t.AttachesTo 5 7 ∧ t.AttachesTo 6 9 := by
  have hg : meshGrid .mixed 2 = .ok ⟨2, 3, by decide, by decide⟩ := rfl
  have h : layout .meshDirCorner .mixed { rows := 2 } = .ok _ :=
    meshOf_of_meshGrid .meshDirCorner hg
  obtain ⟨g, e, -, -, -, -, hplaced, -⟩ := layout_placement h
  cases e
  exact ⟨_, h, hplaced.directory_attachesTo (j := 0) rfl rfl,
    hplaced.sequencer_attachesTo (j := 0) rfl rfl, hplaced.device (by decide),
    hplaced.sequencer_attachesTo (j := 1) rfl rfl, hplaced.directory_attachesTo (j := 1) rfl rfl,
    hplaced.sequencer_attachesTo (j := 2) rfl rfl, hplaced.sequencer_attachesTo (j := 3) rfl rfl⟩

end CoherentMemory.Interconnect
