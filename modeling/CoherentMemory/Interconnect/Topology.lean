import CoherentMemory.Controller
import CoherentMemory.Interconnect.Grid
import CoherentMemory.Text.Blank
import CoherentMemory.Text.Quoted

/-!
# Interconnect topologies

A topology is an undirected graph: an endpoint for each controller, in the order
of the controllers, then the routers, and links with a routing weight and a
latency. Each topology carries its incidence table, which lists the links of
every node in the order of the link list; `incident_eq` says that it is the
table of the links. `linksOf`, `neighbours` and `attachmentOf?` read the graph
through it.
-/

namespace CoherentMemory.Interconnect

/-- The families of topologies. -/
inductive Kind where
  /-- All endpoints at one router. -/
  | crossbar
  /-- A router grid with one placed controller at each router. -/
  | mesh
  /-- A router grid with the directories at its corners. -/
  | meshDirCorner
deriving DecidableEq, Repr

/-- Why no topology is built. -/
inductive TopologyError where
  /-- A text that names no family. -/
  | unsupportedKind (text : String)
  /-- The placed controllers do not fill equal rows. -/
  | invalidMeshShape (nodes rows : Nat)
  /-- There is nothing to connect. -/
  | noControllers
deriving DecidableEq, Repr

/-- The wording of a failure. -/
def TopologyError.message : TopologyError → String
  | .unsupportedKind text =>
    "unsupported topology kind " ++ Text.quoted text ++
      " (expected crossbar, mesh or mesh_dir_corner)"
  | .invalidMeshShape nodes rows =>
    "invalid mesh shape: " ++ toString nodes ++ " nodes cannot be arranged in " ++ toString rows ++
      " rows"
  | .noControllers => "cannot build a topology without controllers"

/-- The name of a family. -/
def Kind.name : Kind → String
  | .crossbar => "crossbar"
  | .mesh => "mesh"
  | .meshDirCorner => "mesh_dir_corner"

/-- Reads the name of a family; blanks at its ends do not count. -/
def Kind.parse (s : String) : Except TopologyError Kind :=
  match Text.trimmed s with
  | "crossbar" => .ok .crossbar
  | "mesh" => .ok .mesh
  | "mesh_dir_corner" => .ok .meshDirCorner
  | other => .error (.unsupportedKind other)

/-- The position of a node in its topology. -/
abbrev NodeId := Nat

/-- What a node stands for. -/
inductive NodeKind where
  /-- The controller at a position of the controller list. -/
  | endpoint (controller : Nat) (name : String) (role : Role)
  | router
deriving DecidableEq, Repr

/-- A node of a topology. -/
structure Node where
  id : NodeId
  kind : NodeKind
deriving DecidableEq, Repr

namespace Node

def isRouter (n : Node) : Bool :=
  match n.kind with
  | .router => true
  | .endpoint .. => false

def isEndpoint (n : Node) : Bool :=
  !n.isRouter

/-- The name of the controller that the node stands for. -/
def controllerName? (n : Node) : Option String :=
  match n.kind with
  | .endpoint _ name _ => some name
  | .router => none

end Node

/-- What a link joins. -/
inductive LinkKind where
  /-- An endpoint and a router. -/
  | external
  /-- Two routers. -/
  | internal
deriving DecidableEq, Repr

/-- The name of a kind of link. -/
def LinkKind.name : LinkKind → String
  | .external => "external"
  | .internal => "internal"

/-- An undirected link. -/
structure Link where
  a : NodeId
  b : NodeId
  kind : LinkKind
  weight : Nat
  latency : UInt32
deriving DecidableEq, Repr

/-- The end of the link opposite to `v`, if `v` is one of its ends. -/
def Link.other? (l : Link) (v : NodeId) : Option NodeId :=
  if l.a = v then some l.b
  else if l.b = v then some l.a
  else none

/-- The table of links with `l` entered under `v`. -/
def enter (table : Array (Array Link)) (v : NodeId) (l : Link) : Array (Array Link) :=
  table.modify v (·.push l)

/-- The links of each of `n` nodes, in the order of `links`. -/
def incidence (n : Nat) (links : List Link) : Array (Array Link) :=
  links.foldl (fun table l => enter (enter table l.a l) l.b l) (Array.replicate n #[])

/-- A topology and its incidence table. -/
structure Topology where
  kind : Kind
  nodes : Array Node
  links : List Link
  grid : Option Grid
  incident : Array (Array Link)
  incident_eq : incident = incidence nodes.size links

namespace Topology

/-- The topology of the given nodes and links. -/
def ofLinks (kind : Kind) (nodes : List Node) (links : List Link) (grid : Option Grid) : Topology :=
  ⟨kind, nodes.toArray, links, grid, incidence nodes.toArray.size links, rfl⟩

def node? (t : Topology) (v : NodeId) : Option Node :=
  t.nodes[v]?

def nodeCount (t : Topology) : Nat :=
  t.nodes.size

def linkCount (t : Topology) : Nat :=
  t.links.length

def endpoints (t : Topology) : List Node :=
  t.nodes.toList.filter Node.isEndpoint

def routers (t : Topology) : List Node :=
  t.nodes.toList.filter Node.isRouter

/-- The links with `v` as an end, in the order of the link list. -/
def linksOf (t : Topology) (v : NodeId) : List Link :=
  (t.incident[v]?.getD #[]).toList

/-- The nodes at the other ends of the links of `v`. -/
def neighbours (t : Topology) (v : NodeId) : List NodeId :=
  (t.linksOf v).filterMap (·.other? v)

def isEndpoint (t : Topology) (v : NodeId) : Bool :=
  (t.node? v).any Node.isEndpoint

def isRouter (t : Topology) (v : NodeId) : Bool :=
  (t.node? v).any Node.isRouter

/-- The first endpoint of a controller with the given name. -/
def endpointNamed? (t : Topology) (name : String) : Option Node :=
  t.endpoints.find? fun n => n.controllerName? = some name

/-- The router next to the first endpoint of a controller with the given name. -/
def attachmentOf? (t : Topology) (name : String) : Option NodeId :=
  (t.endpointNamed? name).bind fun n => (t.neighbours n.id).find? t.isRouter

end Topology

/-! ## The incidence table -/

@[simp] theorem size_enter (table : Array (Array Link)) (v : NodeId) (l : Link) :
    (enter table v l).size = table.size := by
  simp [enter]

theorem size_foldl_enter (links : List Link) (table : Array (Array Link)) :
    (links.foldl (fun table l => enter (enter table l.a l) l.b l) table).size = table.size := by
  induction links generalizing table with
  | nil => rfl
  | cons l links ih => rw [List.foldl_cons, ih, size_enter, size_enter]

/-- The table has an entry for each node. -/
@[simp] theorem size_incidence (n : Nat) (links : List Link) : (incidence n links).size = n := by
  rw [incidence, size_foldl_enter, Array.size_replicate]

@[simp] theorem Topology.size_incident (t : Topology) : t.incident.size = t.nodeCount := by
  rw [t.incident_eq, size_incidence]
  rfl

end CoherentMemory.Interconnect
