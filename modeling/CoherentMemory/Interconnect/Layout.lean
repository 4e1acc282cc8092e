import CoherentMemory.Event
import CoherentMemory.Interconnect.Fabric

/-!
# Layouts

How the controllers of a system are placed. A crossbar joins all endpoints to one
router. A mesh needs its placed controllers to fill equal rows (`meshGrid`);
then every controller gets a grid position, and only the choice of positions
differs between the two mesh families: in the plain mesh the `k`-th placed
controller takes position `k`, and in the other one directories take the corners
in turn and sequencers the remaining positions first (`cornerPlacement`). Device
controllers are not placed; they share the router at position zero.
-/

namespace CoherentMemory.Interconnect

/-- All endpoints at one router. -/
def crossbar (cs : ControllerSet) (shape : Shape) : Except TopologyError Topology :=
  if cs.isEmpty then .error .noControllers
  else
    let links := (List.range cs.length).map fun i => externalLink shape i cs.length
    .ok (.ofLinks .crossbar (endpointNodes cs ++ routerNodes cs.length 1) links none)

/-- The grid that the placed controllers fill. -/
def meshGrid (cs : ControllerSet) (rows : Nat) : Except TopologyError Grid :=
  if cs.isEmpty then .error .noControllers
  else
    let nodes := cs.placed.length
    if nodes % rows = 0 then
      match Grid.ofDimensions? rows (nodes / rows) with
      | some grid => .ok grid
      | none => .error (.invalidMeshShape nodes rows)
    else .error (.invalidMeshShape nodes rows)

/-- The element that comes up after `turn` elements of `xs` repeated in turn. -/
def takeTurn (xs : List Nat) (turn : Nat) : Nat :=
  xs.getD (turn % xs.length) 0

/-- The positions of the given controllers when `directories` directories and
`others` other controllers are placed already: directories take the corners in
turn, the others the compute positions. -/
def cornerPlacementFrom (g : Grid) : (directories others : Nat) → List Controller → List Nat
  | _, _, [] => []
  | d, o, c :: cs =>
    if c.isDirectory then takeTurn g.corners d :: cornerPlacementFrom g (d + 1) o cs
    else takeTurn g.computePositions o :: cornerPlacementFrom g d (o + 1) cs

/-- The grid positions of the placed controllers, in their order. -/
def placement (kind : Kind) (g : Grid) (cs : ControllerSet) : List Nat :=
  match kind with
  | .meshDirCorner => cornerPlacementFrom g 0 0 (cs.filter Controller.isPlaced)
  | .mesh | .crossbar => List.range cs.placed.length

/-- The external links of a mesh: those of the placed controllers to their
positions, then those of the device controllers to position zero. -/
def meshExternalLinks (kind : Kind) (g : Grid) (cs : ControllerSet) (shape : Shape) : List Link :=
  List.zipWith (fun i p => externalLink shape i (cs.length + p)) cs.placed (placement kind g cs) ++
    cs.unplaced.map fun i => externalLink shape i cs.length

/-- The mesh of the given family over a grid. -/
def meshOver (kind : Kind) (g : Grid) (cs : ControllerSet) (shape : Shape) : Topology :=
  .ofLinks kind (endpointNodes cs ++ routerNodes cs.length g.positions)
    (meshExternalLinks kind g cs shape ++ fabric g cs.length shape) (some g)

/-- A mesh of the given family. -/
def meshOf (kind : Kind) (cs : ControllerSet) (shape : Shape) : Except TopologyError Topology :=
  (meshGrid cs shape.rows).map fun g => meshOver kind g cs shape

/-- The topology of a family over the controllers of a system. -/
def layout (kind : Kind) (cs : ControllerSet) (shape : Shape) : Except TopologyError Topology :=
  match kind with
  | .crossbar => crossbar cs shape
  | .mesh => meshOf .mesh cs shape
  | .meshDirCorner => meshOf .meshDirCorner cs shape

/-- The event that reports a finished topology. -/
def layoutEvent (t : Topology) : Event where
  level := .info
  target := "ruby_memsys::network::topology"
  fields := [("kind", t.kind.name), ("endpoints", toString t.endpoints.length),
    ("routers", toString t.routers.length), ("links", toString t.linkCount),
    ("message", "topology built")]

/-- The topology of a family, with the event that reports it. -/
def layoutLogged (kind : Kind) (cs : ControllerSet) (shape : Shape) :
    Logged TopologyError Topology := do
  let t ← .ofExcept (layout kind cs shape)
  .emit (layoutEvent t)
  return t

/-- Reporting does not change the topology. -/
@[simp] theorem result_layoutLogged (kind : Kind) (cs : ControllerSet) (shape : Shape) :
    (layoutLogged kind cs shape).result = layout kind cs shape := by
  simp only [layoutLogged, Logged.result_bind, Logged.result_ofExcept]
  cases layout kind cs shape <;> rfl

theorem length_cornerPlacementFrom (g : Grid) (d o : Nat) (cs : List Controller) :
    (cornerPlacementFrom g d o cs).length = cs.length := by
  induction cs generalizing d o with
  | nil => rfl
  | cons c cs ih =>
    unfold cornerPlacementFrom
    split <;> simp only [List.length_cons, ih]

/-- Every placed controller has a position. -/
theorem length_placement (kind : Kind) (g : Grid) (cs : ControllerSet) :
    (placement kind g cs).length = cs.placed.length := by
  cases kind <;> simp only [placement, length_cornerPlacementFrom, List.length_range,
    ControllerSet.length_placed, List.countP_eq_length_filter]

end CoherentMemory.Interconnect
