import CoherentMemory.Interconnect.LeastCost

/-!
# The simple network model

Endpoints are joined point to point: the latency between two of them is the
least sum of link latencies on a path, and routers cost nothing. The table of
latencies is computed once for a topology.
-/

namespace CoherentMemory.Network

open Interconnect

/-- The parameters of the simple model. -/
structure PointToPointParams where
  /-- The bandwidth at each endpoint, in thousandths of a byte per cycle. -/
  endpointBandwidth : UInt32 := 10000
  /-- The depth of message buffers; zero stands for no bound. -/
  bufferSize : UInt32 := 0
deriving DecidableEq, Repr

/-- The simple model of a topology. -/
structure PointToPoint where
  params : PointToPointParams
  endpoints : List NodeId
  /-- The latencies from each endpoint to each, in the order of `endpoints`. -/
  latencies : List (List (Option Nat))

/-- Paths cost their link latencies. -/
def linkLatency : CostModel where
  node _ := 0
  link l := l.latency.toNat

namespace PointToPoint

/-- The latencies from one endpoint to the given ones. -/
def latenciesFrom (t : Topology) (endpoints : List NodeId) (source : NodeId) :
    Except Overflow (List (Option Nat)) :=
  (leastCosts t linkLatency source).map fun best => endpoints.map fun v => best[v]?.join

/-- The simple model of a topology. -/
def ofTopology (t : Topology) (params : PointToPointParams) : Except Overflow PointToPoint :=
  let endpoints := t.endpoints.map Node.id
  (endpoints.mapM (latenciesFrom t endpoints)).map fun rows => ⟨params, endpoints, rows⟩

/-- The latency between two endpoints. -/
def latency? (n : PointToPoint) (source target : NodeId) : Option Nat :=
  match n.endpoints.findIdx? (· = source), n.endpoints.findIdx? (· = target) with
  | some i, some j => (n.latencies[i]?.bind (·[j]?)).join
  | _, _ => none

end PointToPoint

end CoherentMemory.Network
