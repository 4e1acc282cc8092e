import CoherentMemory.Event
import CoherentMemory.Interconnect.LeastCost
import CoherentMemory.Network.Kind

/-!
# The detailed network model

Every router of the topology becomes a router model with a port for each of its
links, a pipeline and flit buffers, and every link becomes a link model. The
fixed variant has pipelines of four stages, the flexible one takes their depth
from its parameters. The buffer slots of a router are counted exactly; a count
beyond 64 bits is an error that names the router (`bufferSlots?_eq_some`).
-/

namespace CoherentMemory.Network

open Interconnect

/-- The variants of the detailed model. -/
inductive Variant where
  | fixed
  | flexible
deriving DecidableEq, Repr

/-- The name of a variant. -/
def Variant.name : Variant → String
  | .fixed => "fixed"
  | .flexible => "flexible"

/-- The pipeline depth of the fixed variant. -/
def fixedPipelineStages : UInt32 := 4

/-- The parameters of the detailed model. -/
structure PipelinedParams where
  /-- The width of a flit in bytes. -/
  flitSize : UInt32 := 16
  /-- The virtual channels per port for each of data and control messages. -/
  vcsPerClass : UInt32 := 4
  buffersPerDataVc : UInt32 := 4
  buffersPerCtrlVc : UInt32 := 1
  /-- The depth of a router's pipeline in the flexible variant. -/
  pipelineStages : UInt32 := fixedPipelineStages
deriving DecidableEq, Repr

/-- A router with its ports and buffers. -/
structure RouterModel where
  node : NodeId
  ports : Nat
  pipelineStages : UInt32
  vcsPerClass : UInt32
  bufferSlots : Nat
deriving DecidableEq, Repr

/-- A link with its width. -/
structure LinkModel where
  a : NodeId
  b : NodeId
  latency : UInt32
  flitSize : UInt32
deriving DecidableEq, Repr

/-- The detailed model of a topology. -/
structure Pipelined where
  variant : Variant
  params : PipelinedParams
  routers : List RouterModel
  links : List LinkModel
deriving DecidableEq, Repr

/-- The depth of the pipelines of a variant. -/
def Variant.stages (v : Variant) (params : PipelinedParams) : UInt32 :=
  match v with
  | .fixed => fixedPipelineStages
  | .flexible => params.pipelineStages

/-- The flit buffers behind one port, data and control channels alike. -/
def slotsPerPort (params : PipelinedParams) : Nat :=
  params.vcsPerClass.toNat * (params.buffersPerDataVc.toNat + params.buffersPerCtrlVc.toNat)

/-- The flit buffers over all ports of a router, if neither their number nor the
number behind one port leaves 64 bits. -/
def bufferSlots? (params : PipelinedParams) (ports : Nat) : Option Nat :=
  if slotsPerPort params < 0x10000000000000000 ∧
      slotsPerPort params * ports < 0x10000000000000000 then
    some (slotsPerPort params * ports)
  else none

/-- A router with ports has its exact number of slots, unless that number does
not fit in 64 bits. -/
theorem bufferSlots?_eq_some {params : PipelinedParams} {ports slots : Nat} (h : 0 < ports) :
    bufferSlots? params ports = some slots ↔
      slotsPerPort params * ports = slots ∧ slots < 0x10000000000000000 := by
  have hle : slotsPerPort params ≤ slotsPerPort params * ports := Nat.le_mul_of_pos_right _ h
  unfold bufferSlots?
  split <;> grind

/-- The event that reports a router model. -/
def RouterModel.event (r : RouterModel) : Event where
  level := .debug
  target := "ruby_memsys::network::garnet"
  fields := [("router", toString r.node), ("ports", toString r.ports),
    ("pipe_stages", toString r.pipelineStages), ("buffer_slots", toString r.bufferSlots),
    ("message", "garnet router")]

namespace Pipelined

/-- The model of one router. -/
def routerModel (t : Topology) (v : Variant) (params : PipelinedParams) (n : Node) :
    Except NetworkError RouterModel :=
  let ports := (t.linksOf n.id).length
  match bufferSlots? params ports with
  | some slots => .ok ⟨n.id, ports, v.stages params, params.vcsPerClass, slots⟩
  | none => .error (.bufferOverflow n.id)

/-- The models of the routers in order, each reported, up to the first that has
no model. -/
def routerModels (t : Topology) (v : Variant) (params : PipelinedParams) :
    List Node → Logged NetworkError (List RouterModel)
  | [] => pure []
  | n :: ns => do
    let r ← .ofExcept (routerModel t v params n)
    .emit r.event
    let rs ← routerModels t v params ns
    return r :: rs

/-- The model of one link. -/
def linkModel (params : PipelinedParams) (l : Link) : LinkModel :=
  ⟨l.a, l.b, l.latency, params.flitSize⟩

/-- The detailed model of a topology, with the events that report its routers. -/
def ofTopology (t : Topology) (v : Variant) (params : PipelinedParams) :
    Logged NetworkError Pipelined := do
  let routers ← routerModels t v params t.routers
  return ⟨v, params, routers, t.links.map (linkModel params)⟩

/-- The pipeline depth of the router model at a node, zero where there is
none. -/
def stagesAt (n : Pipelined) (v : NodeId) : Nat :=
  match n.routers.find? fun r => r.node = v with
  | some r => r.pipelineStages.toNat
  | none => 0

/-- Paths cost their link latencies and the pipelines that they pass through. -/
def costs (n : Pipelined) : CostModel where
  node v := n.stagesAt v.id
  link l := l.latency.toNat

/-- The latency of a single flit between two endpoints without contention. -/
def latency (n : Pipelined) (t : Topology) (source target : NodeId) :
    Except Overflow (Option Nat) :=
  if t.isEndpoint source && t.isEndpoint target then
    (leastCosts t n.costs source).map fun best => best[target]?.join
  else .ok none

/-- The result of modelling routers is that of modelling each. -/
theorem result_routerModels (t : Topology) (v : Variant) (params : PipelinedParams)
    (ns : List Node) :
    (routerModels t v params ns).result = ns.mapM (routerModel t v params) := by
  induction ns with
  | nil => rfl
  | cons n ns ih =>
    simp only [routerModels, Logged.result_bind, Logged.result_ofExcept, Logged.result_emit,
      Logged.result_pure, List.mapM_cons, ih]
    cases routerModel t v params n <;> rfl

/-- The result is made of the models of routers and links. -/
theorem result_ofTopology (t : Topology) (v : Variant) (params : PipelinedParams) :
    (ofTopology t v params).result = (t.routers.mapM (routerModel t v params)).bind fun routers =>
      .ok ⟨v, params, routers, t.links.map (linkModel params)⟩ := by
  simp only [ofTopology, Logged.result_bind, result_routerModels, Logged.result_pure]

end Pipelined

end CoherentMemory.Network
