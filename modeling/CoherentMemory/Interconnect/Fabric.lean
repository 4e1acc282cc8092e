import CoherentMemory.Interconnect.Topology

/-!
# Nodes and links of a layout

The parts that layouts are made of: endpoint and router nodes, the external link
of an endpoint, and the fabric, which joins neighbouring routers of a grid. Along
a row links have weight one, along a column weight two, so that routes of least
weight resolve the row first. With wraparound the two ends of a dimension longer
than two are joined as well.
-/

namespace CoherentMemory.Interconnect

/-- The shape parameters of a layout; a crossbar uses the latencies only. -/
structure Shape where
  rows : Nat := 1
  wraparound : Bool := false
  /-- The latency in cycles of a link between an endpoint and a router. -/
  externalLatency : UInt32 := 1
  /-- The latency in cycles of a link between two routers. -/
  internalLatency : UInt32 := 1
deriving DecidableEq, Repr

def externalWeight : Nat := 1
def rowWeight : Nat := 1
def columnWeight : Nat := 2

/-- The endpoint of the controller at position `i`. -/
def endpointNode (i : Nat) (c : Controller) : Node :=
  ⟨i, .endpoint i c.name c.role⟩

/-- One endpoint per controller, in the same order. -/
def endpointNodes (cs : ControllerSet) : List Node :=
  cs.mapIdx endpointNode

/-- `count` routers, numbered from `first`. -/
def routerNodes (first count : Nat) : List Node :=
  (List.range count).map fun p => ⟨first + p, .router⟩

/-- The link between an endpoint and a router. -/
def externalLink (shape : Shape) (endpoint router : NodeId) : Link :=
  ⟨endpoint, router, .external, externalWeight, shape.externalLatency⟩

/-- The link between two routers. -/
def internalLink (shape : Shape) (weight : Nat) (a b : NodeId) : Link :=
  ⟨a, b, .internal, weight, shape.internalLatency⟩

/-- The pairs of neighbouring coordinates along a dimension: each with the next,
and the last with the first if the dimension wraps around. -/
def steps (wraparound : Bool) (length : Nat) : List (Nat × Nat) :=
  ((List.range (length - 1)).map fun i => (i, i + 1)) ++
    if wraparound && 2 < length then [(length - 1, 0)] else []

/-- The links along the rows, row by row. -/
def rowLinks (g : Grid) (first : NodeId) (shape : Shape) : List Link :=
  (List.range g.rows).flatMap fun row =>
    (steps shape.wraparound g.columns).map fun s =>
      internalLink shape rowWeight (first + g.index row s.1) (first + g.index row s.2)

/-- The links along the columns, column by column. -/
def columnLinks (g : Grid) (first : NodeId) (shape : Shape) : List Link :=
  (List.range g.columns).flatMap fun column =>
    (steps shape.wraparound g.rows).map fun s =>
      internalLink shape columnWeight (first + g.index s.1 column) (first + g.index s.2 column)

/-- The links between the routers of a grid, of which router `first` is the
one at position zero. -/
def fabric (g : Grid) (first : NodeId) (shape : Shape) : List Link :=
  rowLinks g first shape ++ columnLinks g first shape

@[simp] theorem length_endpointNodes (cs : ControllerSet) :
    (endpointNodes cs).length = cs.length := by
  simp [endpointNodes]

@[simp] theorem length_routerNodes (first count : Nat) :
    (routerNodes first count).length = count := by
  simp [routerNodes]

theorem length_steps (w : Bool) (n : Nat) :
    (steps w n).length = (n - 1) + if w && 2 < n then 1 else 0 := by
  simp only [steps, List.length_append, List.length_map, List.length_range]
  split <;> rfl

end CoherentMemory.Interconnect
