import CoherentMemory.Network.PointToPoint
import CoherentMemory.Network.Pipelined

/-!
# Networks

A network is a topology with one of the two models over it. `createLogged`
builds the model that a kind selects and reports it; `latency` asks the model.
-/

namespace CoherentMemory

open Interconnect

/-- The parameters of all models. -/
structure Network.Params where
  pointToPoint : PointToPointParams := {}
  pipelined : PipelinedParams := {}
deriving DecidableEq, Repr

/-- The model of a network. -/
inductive Network.Model where
  | pointToPoint (model : PointToPoint)
  | pipelined (model : Pipelined)

/-- A topology and a model over it. -/
structure Network where
  kind : Network.Kind
  topology : Topology
  model : Network.Model

namespace Network

/-- The detailed model of a variant. It refuses routers with too many buffers. -/
def pipelinedModel (t : Topology) (v : Variant) (params : PipelinedParams) :
    Logged (Failure NetworkError) Model := do
  return .pipelined (← (Pipelined.ofTopology t v params).mapError .refusal)

/-- The model that a kind selects. The latencies of the simple one may overflow. -/
def modelOf (kind : Kind) (t : Topology) (params : Params) : Logged (Failure NetworkError) Model :=
  match kind with
  | .simple => do
    return .pointToPoint
      (← .ofExcept ((PointToPoint.ofTopology t params.pointToPoint).mapError .overflow))
  | .fixedGarnet => pipelinedModel t .fixed params.pipelined
  | .flexibleGarnet => pipelinedModel t .flexible params.pipelined

/-- The event that reports a finished network. -/
def createdEvent (kind : Kind) (t : Topology) : Event where
  level := .info
  target := "ruby_memsys::network"
  fields := [("kind", kind.name), ("nodes", toString t.nodeCount), ("links", toString t.linkCount),
    ("message", "network created")]

/-- The network of a kind over a topology, with the events that report it. -/
def createLogged (kind : Kind) (t : Topology) (params : Params) :
    Logged (Failure NetworkError) Network := do
  let model ← modelOf kind t params
  .emit (createdEvent kind t)
  return ⟨kind, t, model⟩

/-- The network of a kind over a topology. -/
def create (kind : Kind) (t : Topology) (params : Params) :
    Except (Failure NetworkError) Network :=
  (createLogged kind t params).result

/-- The router models; the simple model has none. -/
def routers (n : Network) : List RouterModel :=
  match n.model with
  | .pointToPoint _ => []
  | .pipelined model => model.routers

/-- The link models; the simple model has none. -/
def linkModels (n : Network) : List LinkModel :=
  match n.model with
  | .pointToPoint _ => []
  | .pipelined model => model.links

/-- The latency in cycles between two endpoints without contention. There is none
unless both nodes are endpoints. -/
def latency (n : Network) (source target : NodeId) : Except Overflow (Option Nat) :=
  match n.model with
  | .pointToPoint model => .ok (model.latency? source target)
  | .pipelined model => model.latency n.topology source target

/-- A one-line description of a network. -/
def describe (n : Network) : String :=
  "Network \x7b kind: " ++ n.kind.title ++ ", nodes: " ++ toString n.topology.nodeCount ++
    ", links: " ++ toString n.topology.linkCount ++ ", routers: " ++ toString n.routers.length ++
    " \x7d"

end Network

end CoherentMemory
