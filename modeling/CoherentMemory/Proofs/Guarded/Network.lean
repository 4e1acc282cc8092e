import CoherentMemory.Proofs.Guarded.Queries
import CoherentMemory.Proofs.Network.Creation

/-!
# Guarded networks

The network models in guarded operations. The table of the simple model has a row and an
entry for each endpoint, and the tables of the searches one for each node; the sums of
latencies fit for up to `2 ^ 31` nodes. So creating a network of that size ends in no
fault (`create_matches`), and neither does asking it for a latency (`latency_eq`).
-/

namespace CoherentMemory.Guarded

open Interconnect Network

variable {t : Topology}

/-! ## The simple model -/

/-- The latencies from one endpoint to the given ones. -/
def latenciesFrom (t : Topology) (endpoints : List NodeId) (source : NodeId) :
    Except Fault (List (Option Nat)) := do
  let best ← leastCosts t linkLatency source
  endpoints.mapM fun v => entry best[v]?

/-- The simple model of a topology. -/
def pointToPoint (t : Topology) (params : PointToPointParams) : Except Fault PointToPoint := do
  let endpoints := t.endpoints.map Node.id
  return ⟨params, endpoints, ← endpoints.mapM (latenciesFrom t endpoints)⟩

/-- The entry of the table for two endpoints. -/
def tableLatency (m : PointToPoint) (source target : NodeId) : Except Fault (Option Nat) :=
  match m.endpoints.findIdx? (· = source), m.endpoints.findIdx? (· = target) with
  | some i, some j => do entry (← entry m.latencies[i]?)[j]?
  | _, _ => .ok none

section PointToPoint

variable {params : PointToPointParams} {m : PointToPoint} {n : Nat}

theorem latenciesFrom_eq (hr : t.LinksInRange) {endpoints : List Nat}
    (he : ∀ v ∈ endpoints, v < t.nodeCount) {source : Nat} (hs : source < t.nodeCount)
    {row : List (Option Nat)} (h : PointToPoint.latenciesFrom t endpoints source = .ok row) :
    latenciesFrom t endpoints source = .ok row := by
  obtain ⟨best, hbest, rfl⟩ := map_eq_ok.mp h
  have hsize := (isLeastCost_of_leastCosts hr hs hbest).1
  rw [latenciesFrom, leastCosts_eq hr hbest, ok_bind]
  refine mapM_eq fun v hv => ?_
  have hlt : v < best.size := hsize ▸ he v hv
  rw [Array.getElem?_eq_getElem hlt]
  rfl

theorem pointToPoint_eq (hr : t.LinksInRange)
    (he : ∀ v ∈ t.endpoints.map Node.id, v < t.nodeCount)
    (h : PointToPoint.ofTopology t params = .ok m) : pointToPoint t params = .ok m := by
  obtain ⟨rows, hrows, rfl⟩ := map_eq_ok.mp h
  rw [pointToPoint,
    mapM_eq_ok_of_imp hrows fun v hv row hrow => latenciesFrom_eq hr he (he v hv) hrow]
  rfl

/-- The table has the rows and the entries that endpoints are looked up at. -/
theorem tableLatency_eq (he : t.endpoints.map Node.id = List.range n)
    (h : PointToPoint.ofTopology t params = .ok m) (a b : Nat) :
    tableLatency m a b = .ok (m.latency? a b) := by
  simp only [PointToPoint.ofTopology, he] at h
  obtain ⟨rows, hrows, rfl⟩ := map_eq_ok.mp h
  simp only [tableLatency, PointToPoint.latency?, findIdx?_range]
  by_cases ha : a < n
  · by_cases hb : b < n
    · obtain ⟨row, hrow, hfrom⟩ := exists_of_mapM_eq_ok hrows (List.getElem?_range ha)
      obtain ⟨best, -, rfl⟩ := map_eq_ok.mp hfrom
      simp only [if_pos ha, if_pos hb, hrow, entry_some, ok_bind, Option.bind_some,
        List.getElem?_map, List.getElem?_range hb, Option.map_some, Option.join_some]
    · rw [if_pos ha, if_neg hb]
  · rw [if_neg ha]

end PointToPoint

/-! ## The detailed model -/

/-- The flit buffers over all ports of a router, if their number fits. -/
def bufferSlots (params : PipelinedParams) (ports : Nat) : Except Fault (Option Nat) := do
  let buffers ← add params.buffersPerDataVc.toNat params.buffersPerCtrlVc.toNat
  return (checkedMul params.vcsPerClass.toNat buffers).toOption.bind fun slots =>
    (checkedMul slots ports).toOption

/-- The model of one router. -/
def routerModel (t : Topology) (v : Variant) (params : PipelinedParams) (n : Node) :
    Stage NetworkError RouterModel := do
  let links ← linksOf t n.id
  let ports ← count links
  match ← bufferSlots params ports with
  | some slots => return ⟨n.id, ports, v.stages params, params.vcsPerClass, slots⟩
  | none => throw (.bufferOverflow n.id)

/-- The detailed model of a topology. -/
def pipelined (t : Topology) (v : Variant) (params : PipelinedParams) :
    Stage NetworkError Pipelined := do
  let routers ← t.routers.mapM (routerModel t v params)
  return ⟨v, params, routers, t.links.map (Pipelined.linkModel params)⟩

/-- The latency between two endpoints by the detailed model. -/
def searchLatency (m : Pipelined) (t : Topology) (source target : NodeId) :
    Except Fault (Option Nat) :=
  if t.isEndpoint source && t.isEndpoint target then do
    entry (← leastCosts t m.costs source)[target]?
  else .ok none

section Pipelined

variable {v : Variant} {params : PipelinedParams}

theorem bufferSlots_eq (params : PipelinedParams) (ports : Nat) :
    bufferSlots params ports = .ok (bufferSlots? params ports) := by
  have hdata := params.buffersPerDataVc.toNat_lt
  have hctrl := params.buffersPerCtrlVc.toNat_lt
  rw [bufferSlots, add_eq (by omega), ok_bind]
  have product (a b : Nat) : (checkedMul a b).toOption =
      if a * b < 0x10000000000000000 then some (a * b) else none := by
    unfold checkedMul
    split <;> rfl
  refine congrArg Except.ok ?_
  show (checkedMul _ _).toOption.bind _ = _
  rw [product, bufferSlots?, slotsPerPort]
  split
  · rename_i h
    rw [Option.bind_some, product]
    simp only [h, true_and]
  · rename_i h
    rw [if_neg fun hc => h hc.1]
    rfl

theorem routerModel_eq (hr : t.LinksInRange) {n : Node} (hn : (t.linksOf n.id).length < 2 ^ 64) :
    (routerModel t v params n).run = .ok (Pipelined.routerModel t v params n) := by
  refine Stage.lift_bind_eq (linksOf_eq hr n.id) (Stage.lift_bind_eq (count_eq hn)
    (Stage.lift_bind_eq (bufferSlots_eq params _) ?_))
  unfold Pipelined.routerModel
  cases h : bufferSlots? params (t.linksOf n.id).length <;> simp only [h] <;> rfl

theorem pipelined_eq (hr : t.LinksInRange) (hn : ∀ n, (t.linksOf n).length < 2 ^ 64) :
    (pipelined t v params).run = .ok (Pipelined.ofTopology t v params).result := by
  rw [Pipelined.result_ofTopology]
  exact Stage.bind_eq (Stage.mapM_eq fun n _ => routerModel_eq hr (hn n.id)) fun _ _ => rfl

/-- Where the search has a result, it has an entry for the target. -/
theorem searchLatency_eq (hr : t.LinksInRange) {m : Pipelined} {a b : NodeId}
    {l : Option Nat} (h : m.latency t a b = .ok l) : searchLatency m t a b = .ok l := by
  unfold searchLatency
  unfold Pipelined.latency at h
  have lt {x : NodeId} (hx : t.isEndpoint x = true) : x < t.nodeCount := by
    by_contra hge
    have hnone : t.node? x = none := Array.getElem?_eq_none (Nat.le_of_not_lt hge)
    rw [Topology.isEndpoint, hnone] at hx
    cases hx
  split at h
  · rename_i hab
    obtain ⟨best, hbest, rfl⟩ := map_eq_ok.mp h
    rw [if_pos hab]
    rw [Bool.and_eq_true] at hab
    have hsize := (isLeastCost_of_leastCosts hr (lt hab.1) hbest).1
    have hlt : b < best.size := hsize ▸ lt hab.2
    rw [leastCosts_eq hr hbest, ok_bind, Array.getElem?_eq_getElem hlt]
    rfl
  · rename_i hab
    cases h
    rw [if_neg hab]

theorem exists_searchLatency (hr : t.LinksInRange) {m : Pipelined} {a : NodeId}
    {best : Array (Option Nat)} (h : Interconnect.leastCosts t m.costs a = .ok best) (b : NodeId) :
    ∃ l, m.latency t a b = .ok l ∧ searchLatency m t a b = .ok l := by
  have hlatency : ∃ l, m.latency t a b = .ok l := by
    rw [Pipelined.latency, h]
    split
    · exact ⟨_, rfl⟩
    · exact ⟨_, rfl⟩
  obtain ⟨l, hl⟩ := hlatency
  exact ⟨l, hl, searchLatency_eq hr hl⟩

end Pipelined

/-! ## Networks -/

/-- The network of a kind over a topology. -/
def create (kind : Network.Kind) (t : Topology) (params : Params) : Stage NetworkError Network :=
  match kind with
  | .simple => do
    let model ← pointToPoint t params.pointToPoint
    return ⟨kind, t, .pointToPoint model⟩
  | .fixedGarnet => do
    let model ← pipelined t .fixed params.pipelined
    return ⟨kind, t, .pipelined model⟩
  | .flexibleGarnet => do
    let model ← pipelined t .flexible params.pipelined
    return ⟨kind, t, .pipelined model⟩

/-- The latency between two endpoints. -/
def latency (n : Network) (source target : NodeId) : Except Fault (Option Nat) :=
  match n.model with
  | .pointToPoint model => tableLatency model source target
  | .pipelined model => searchLatency model n.topology source target

section Networks

variable {topology : Interconnect.Kind} {cs : ControllerSet} {shape : Shape}
variable {kind : Network.Kind} {params : Params}

/-- No node of a layout has more links than can be counted. -/
theorem length_linksOf_lt (ht : Interconnect.layout topology cs shape = .ok t)
    (hN : t.nodeCount ≤ 2 ^ 31) (v : NodeId) : (t.linksOf v).length < 2 ^ 64 := by
  obtain ⟨g, position, hw, -⟩ := layout_wiring ht
  by_cases hv : v < t.nodeCount
  · have hle := linkCount_layout_le ht
    have hdegree : t.degree v ≤ t.linkCount := List.countP_le_length
    rw [hw.nodeCount_eq] at hN
    rw [length_linksOf (fun l => hw.ends_ne) hv]
    omega
  · rw [linksOf_of_le t (Nat.le_of_not_lt hv)]
    exact Nat.two_pow_pos 64

/-- Up to `2 ^ 31` nodes there is a table of latencies. -/
theorem exists_pointToPoint (ht : Interconnect.layout topology cs shape = .ok t)
    (hN : t.nodeCount ≤ 2 ^ 31) (params : PointToPointParams) :
    ∃ m, PointToPoint.ofTopology t params = .ok m ∧ pointToPoint t params = .ok m := by
  obtain ⟨g, position, hw, -⟩ := layout_wiring ht
  obtain ⟨m, hm⟩ := (PointToPoint.exists_ofTopology_iff hw params).mpr
    (latenciesFit_of_nodeCount_le ht hN)
  refine ⟨m, hm, pointToPoint_eq hw.linksInRange (fun v hv => ?_) hm⟩
  rw [hw.map_id_endpoints, List.mem_range] at hv
  exact hw.endpoint_lt hv

theorem create_variant_matches (ht : Interconnect.layout topology cs shape = .ok t)
    (hN : t.nodeCount ≤ 2 ^ 31) (v : Variant) (params : Params) :
    (create v.kind t params).Matches (Network.create v.kind t params) := by
  obtain ⟨g, position, hw, -⟩ := layout_wiring ht
  have hmodel : (pipelined t v params.pipelined).Matches
      ((Pipelined.ofTopology t v params.pipelined).result.mapError .refusal) :=
    ⟨_, pipelined_eq hw.linksInRange (length_linksOf_lt ht hN), rfl⟩
  rw [create_variant]
  cases v with
  | fixed => exact hmodel.bind fun _ _ => ⟨.ok _, rfl, rfl⟩
  | flexible => exact hmodel.bind fun _ _ => ⟨.ok _, rfl, rfl⟩

theorem create_matches (ht : Interconnect.layout topology cs shape = .ok t)
    (hN : t.nodeCount ≤ 2 ^ 31) (kind : Network.Kind) (params : Params) :
    (create kind t params).Matches (Network.create kind t params) := by
  rcases kind.eq_simple_or_variant with rfl | ⟨v, rfl⟩
  · obtain ⟨m, hm, hguarded⟩ := exists_pointToPoint ht hN params.pointToPoint
    rw [create_simple, hm]
    exact .lift_bind hguarded ⟨.ok _, rfl, rfl⟩
  · exact create_variant_matches ht hN v params

/-- Up to `2 ^ 31` nodes a network has all of its latencies. -/
theorem latency_eq (ht : Interconnect.layout topology cs shape = .ok t)
    (hN : t.nodeCount ≤ 2 ^ 31) {n : Network} (hn : Network.create kind t params = .ok n)
    (a b : NodeId) : ∃ l, n.latency a b = .ok l ∧ latency n a b = .ok l := by
  obtain ⟨g, position, hw, -⟩ := layout_wiring ht
  obtain ⟨l, hl⟩ := exists_latency hw hn hN a b
  refine ⟨l, hl, ?_⟩
  rcases create_cases hn with ⟨m, -, hm, rfl⟩ | ⟨v, m, -, -, rfl⟩
  · cases hl
    exact tableLatency_eq hw.map_id_endpoints hm a b
  · exact searchLatency_eq hw.linksInRange hl

end Networks

end CoherentMemory.Guarded
