import CoherentMemory.Network.Model
import CoherentMemory.Proofs.Interconnect.GridDistance
import CoherentMemory.Proofs.Success

/-!
# Latencies between endpoints

The simple model answers from a table, the detailed one by a search for each
question; both give the least costs of one cost model (`pathCosts`, `latency_eq`).
That cost model is a tariff: external links, internal links and routers each cost
the same (`pathCosts_tariff`), so that the latency between two endpoints is known
from the hop distance of their routers (`latency_endpoints`). `latency_layout` says so for
the networks over all layouts.
-/

namespace CoherentMemory.Network

open Interconnect

/-- What paths cost in the model of a network. -/
def pathCosts (n : Network) : CostModel :=
  match n.model with
  | .pointToPoint _ => linkLatency
  | .pipelined model => model.costs

/-- The kind of network that a variant of the detailed model belongs to. -/
def Variant.kind : Variant → Kind
  | .fixed => .fixedGarnet
  | .flexible => .flexibleGarnet

theorem Kind.eq_simple_or_variant (kind : Kind) :
    kind = .simple ∨ ∃ v : Variant, kind = v.kind := by
  cases kind with
  | simple => exact .inl rfl
  | fixedGarnet => exact .inr ⟨.fixed, rfl⟩
  | flexibleGarnet => exact .inr ⟨.flexible, rfl⟩

theorem Variant.kind_ne_simple (v : Variant) : v.kind ≠ .simple := by
  cases v <;> exact nofun

/-- The depth of the router pipelines in the model that a kind selects. The simple
model has none. -/
def Kind.stages (kind : Kind) (params : Params) : Nat :=
  match kind with
  | .simple => 0
  | .fixedGarnet => 4
  | .flexibleGarnet => params.pipelined.pipelineStages.toNat

theorem stages_kind (v : Variant) (params : Params) :
    v.kind.stages params = (v.stages params.pipelined).toNat := by
  cases v <;> rfl

variable {t : Topology}

/-- The simple network is made of its table. -/
theorem create_simple (t : Topology) (params : Params) :
    create .simple t params =
      ((PointToPoint.ofTopology t params.pointToPoint).mapError .overflow).bind fun m =>
        .ok ⟨.simple, t, .pointToPoint m⟩ := by
  simp only [create, createLogged, modelOf, Logged.result_bind, Logged.result_ofExcept,
    Logged.result_emit, Logged.result_pure]
  cases PointToPoint.ofTopology t params.pointToPoint <;> rfl

/-- A detailed network is made of its models. -/
theorem create_variant (t : Topology) (v : Variant) (params : Params) :
    create v.kind t params =
      ((Pipelined.ofTopology t v params.pipelined).result.mapError .refusal).bind fun m =>
        .ok ⟨v.kind, t, .pipelined m⟩ := by
  cases v <;>
  · simp only [create, createLogged, Variant.kind, modelOf, pipelinedModel, Logged.result_bind,
      Logged.result_mapError, Logged.result_emit, Logged.result_pure]
    cases (Pipelined.ofTopology t _ params.pipelined).result <;> rfl

/-- A network has the model that its kind selects. -/
theorem create_cases {kind : Kind} {params : Params} {n : Network}
    (h : create kind t params = .ok n) :
    (∃ m, kind = .simple ∧ PointToPoint.ofTopology t params.pointToPoint = .ok m ∧
      n = ⟨kind, t, .pointToPoint m⟩) ∨
    ∃ v m, kind = Variant.kind v ∧ (Pipelined.ofTopology t v params.pipelined).result = .ok m ∧
      n = ⟨kind, t, .pipelined m⟩ := by
  rcases kind.eq_simple_or_variant with rfl | ⟨v, rfl⟩
  · rw [create_simple] at h
    obtain ⟨m, hm, h⟩ := bind_eq_ok.mp h
    cases h
    exact .inl ⟨m, rfl, mapError_eq_ok.mp hm, rfl⟩
  · rw [create_variant] at h
    obtain ⟨m, hm, h⟩ := bind_eq_ok.mp h
    cases h
    exact .inr ⟨v, m, rfl, mapError_eq_ok.mp hm, rfl⟩

/-! ## The simple model -/

theorem findIdx?_range (n v : Nat) :
    (List.range n).findIdx? (· = v) = if v < n then some v else none := by
  by_cases h : v < n
  · rw [if_pos h, List.findIdx?_eq_some_iff_getElem]
    refine ⟨by rw [List.length_range]; exact h, by simp, fun j hj => ?_⟩
    simpa using Nat.ne_of_lt hj
  · rw [if_neg h, List.findIdx?_eq_none_iff]
    intro x hx
    have hlt := List.mem_range.mp hx
    exact decide_eq_false (by omega)

/-- The table holds the least costs between endpoints. -/
theorem PointToPoint.latency?_eq {params : PointToPointParams} {m : PointToPoint} {n : Nat}
    (h : PointToPoint.ofTopology t params = .ok m) (he : t.endpoints.map Node.id = List.range n)
    (a b : Nat) :
    .ok (m.latency? a b) = if a < n ∧ b < n then
      (leastCosts t linkLatency a).map fun best => best[b]?.join else .ok none := by
  simp only [PointToPoint.ofTopology, he] at h
  obtain ⟨rows, hrows, rfl⟩ := map_eq_ok.mp h
  simp only [latency?, findIdx?_range]
  by_cases ha : a < n
  · by_cases hb : b < n
    · obtain ⟨row, hrow, hfrom⟩ := exists_of_mapM_eq_ok hrows (List.getElem?_range ha)
      obtain ⟨best, hbest, rfl⟩ := map_eq_ok.mp hfrom
      rw [if_pos ha, if_pos hb, if_pos ⟨ha, hb⟩, hbest]
      simp only [hrow, Option.bind_some, List.getElem?_map, List.getElem?_range hb, Option.map_some,
        Option.join_some]
      rfl
    · have hab : ¬(a < n ∧ b < n) := fun c => hb c.2
      rw [if_pos ha, if_neg hb, if_neg hab]
  · have hab : ¬(a < n ∧ b < n) := fun c => ha c.1
    rw [if_neg ha, if_neg hab]

/-! ## The detailed model -/

namespace Pipelined

theorem routerModel_eq_ok {v : Variant} {params : PipelinedParams} {n : Node} {r : RouterModel}
    (h : routerModel t v params n = .ok r) :
    r.node = n.id ∧ r.pipelineStages = v.stages params := by
  simp only [routerModel] at h
  split at h
  · cases h
    exact ⟨rfl, rfl⟩
  · cases h

/-- The router models are those of the routers. -/
theorem mem_routers {v : Variant} {params : PipelinedParams} {m : Pipelined}
    (h : (ofTopology t v params).result = .ok m) :
    t.routers.mapM (routerModel t v params) = .ok m.routers := by
  rw [result_ofTopology] at h
  obtain ⟨rs, hrs, e⟩ := bind_eq_ok.mp h
  cases e
  exact hrs

/-- At a router the pipeline has the depth of the variant. -/
theorem stagesAt_router {v : Variant} {params : PipelinedParams} {m : Pipelined}
    (h : (ofTopology t v params).result = .ok m) {n : Node} (hn : n ∈ t.routers) :
    m.stagesAt n.id = (v.stages params).toNat := by
  have hm := mem_routers h
  obtain ⟨i, hi⟩ := List.getElem?_of_mem hn
  obtain ⟨r, hr, hrn⟩ := exists_of_mapM_eq_ok hm hi
  unfold stagesAt
  split
  · rename_i r' hfind
    obtain ⟨n', -, hr'⟩ := (mem_of_mapM_eq_ok hm).mp (List.mem_of_find?_eq_some hfind)
    rw [(routerModel_eq_ok hr').2]
  · rename_i hfind
    have hne := List.find?_eq_none.mp hfind r (List.mem_of_getElem? hr)
    exact absurd (decide_eq_true (routerModel_eq_ok hrn).1) hne

/-- Elsewhere there is no pipeline. -/
theorem stagesAt_of_forall_ne {v : Variant} {params : PipelinedParams} {m : Pipelined}
    (h : (ofTopology t v params).result = .ok m) {x : NodeId} (hx : ∀ n ∈ t.routers, n.id ≠ x) :
    m.stagesAt x = 0 := by
  unfold stagesAt
  split
  · rename_i r hfind
    obtain ⟨n, hn, hr⟩ := (mem_of_mapM_eq_ok (mem_routers h)).mp (List.mem_of_find?_eq_some hfind)
    have hnode : r.node = x := by simpa using List.find?_some hfind
    exact absurd ((routerModel_eq_ok hr).1.symm.trans hnode) (hx n hn)
  · rfl

theorem stagesAt_lt (m : Pipelined) (x : NodeId) : m.stagesAt x < 2 ^ 32 := by
  unfold stagesAt
  split
  · exact UInt32.toNat_lt _
  · exact Nat.zero_lt_succ _

end Pipelined

/-! ## The cost model of a network -/

/-- Link latencies are moderate costs. -/
theorem moderate_linkLatency (t : Topology) : linkLatency.Moderate t :=
  ⟨fun l _ => Nat.le_sub_one_of_lt l.latency.toNat_lt, fun _ _ => Nat.zero_le _⟩

/-- So are the depths of pipelines. -/
theorem Pipelined.moderate_costs (m : Pipelined) (t : Topology) : m.costs.Moderate t :=
  ⟨fun l _ => Nat.le_sub_one_of_lt l.latency.toNat_lt,
    fun n _ => Nat.le_sub_one_of_lt (m.stagesAt_lt n.id)⟩

section Layout

variable {cs : ControllerSet} {shape : Shape} {g : Grid} {position : Nat → Nat} {kind : Kind}
variable {params : Params} {n : Network}

/-- Both models answer by the least costs of paths. -/
theorem latency_eq (hw : Wiring t cs shape g position) (h : create kind t params = .ok n)
    (a b : Nat) :
    n.latency a b = if a < cs.length ∧ b < cs.length then
      (leastCosts t n.pathCosts a).map fun best => best[b]?.join else .ok none := by
  rcases create_cases h with ⟨m, -, hm, rfl⟩ | ⟨v, m, -, -, rfl⟩
  · exact m.latency?_eq hm hw.map_id_endpoints a b
  · show Pipelined.latency m t a b = _
    unfold Pipelined.latency
    simp only [Bool.and_eq_true, hw.isEndpoint_iff]
    rfl

/-- Latencies are moderate costs. -/
theorem pathCosts_moderate (h : create kind t params = .ok n) : n.pathCosts.Moderate t := by
  rcases create_cases h with ⟨m, -, -, rfl⟩ | ⟨v, m, -, -, rfl⟩
  · exact moderate_linkLatency t
  · exact m.moderate_costs t

/-- Links of the same kind have the same latency, and routers the same pipeline. -/
theorem pathCosts_tariff (hw : Wiring t cs shape g position) (h : create kind t params = .ok n)
    {a : Nat} (ha : a < cs.length) :
    Tariff t n.pathCosts a cs.length g shape shape.externalLatency.toNat
      shape.internalLatency.toNat shape.internalLatency.toNat (kind.stages params) := by
  rcases create_cases h with ⟨m, rfl, -, rfl⟩ | ⟨v, m, rfl, hm, rfl⟩
  · exact .of_links (fun _ => rfl) (fun _ _ => rfl) (fun _ _ => rfl) (fun _ _ => rfl)
  · refine ⟨fun _ _ => rfl, fun _ _ => rfl, fun _ _ => rfl, fun p hp => ?_, fun i hi => ?_⟩
    · have hmem : (⟨cs.length + p, .router⟩ : Node) ∈ t.routers := by
        rw [hw.routers_eq]
        exact List.mem_map.mpr ⟨p, List.mem_range.mpr hp, rfl⟩
      have hne : cs.length + p ≠ a := by omega
      rw [transitCost, if_neg hne, hw.node?_router hp, stages_kind]
      exact Pipelined.stagesAt_router hm hmem
    · rw [transitCost, hw.node?_endpoint hi]
      split
      · rfl
      · refine Pipelined.stagesAt_of_forall_ne hm fun r hr => ?_
        rw [hw.routers_eq] at hr
        obtain ⟨p, -, rfl⟩ := List.mem_map.mp hr
        show cs.length + p ≠ i
        omega

/-! ## Latencies -/

/-- Up to `2 ^ 31` nodes every question for a latency has an answer. -/
theorem exists_latency (hw : Wiring t cs shape g position) (h : create kind t params = .ok n)
    (hN : t.nodeCount ≤ 2 ^ 31) (a b : Nat) : ∃ l, n.latency a b = .ok l := by
  obtain ⟨best, hbest⟩ := (pathCosts_moderate h).exists_leastCosts hw.linksInRange hN a
  rw [latency_eq hw h, hbest]
  split
  · exact ⟨_, rfl⟩
  · exact ⟨_, rfl⟩

theorem latency_of_not_endpoint (hw : Wiring t cs shape g position)
    (h : create kind t params = .ok n) {a b : Nat} (hab : ¬(a < cs.length ∧ b < cs.length)) :
    n.latency a b = .ok none := by
  rw [latency_eq hw h, if_neg hab]

/-- The latency between endpoints is a least cost. -/
theorem latency_of_isLeastCost (hw : Wiring t cs shape g position)
    (h : create kind t params = .ok n) (hN : t.nodeCount ≤ 2 ^ 31) {a b c : Nat}
    (ha : a < cs.length) (hb : b < cs.length) (hc : IsLeastCost t n.pathCosts a b c) :
    n.latency a b = .ok (some c) := by
  obtain ⟨best, hbest, he⟩ := leastCosts_of_isLeastCost hw.linksInRange (hw.endpoint_lt ha)
    (pathCosts_moderate h) hN hc
  rw [latency_eq hw h, if_pos ⟨ha, hb⟩, hbest]
  show Except.ok best[b]?.join = _
  rw [he, Option.join_some]

/-- Two external links, as many internal ones as there are hops between the routers,
and one pipeline more. -/
theorem latency_endpoints (hw : Wiring t cs shape g position) (h : create kind t params = .ok n)
    (hN : t.nodeCount ≤ 2 ^ 31) {a b : Nat} (ha : a < cs.length) (hb : b < cs.length)
    (hab : a ≠ b) :
    let hops := g.travel shape.wraparound 1 1 (position a) (position b)
    n.latency a b = .ok (some (2 * shape.externalLatency.toNat +
      hops * shape.internalLatency.toNat + (hops + 1) * kind.stages params)) := by
  intro hops
  have hc := hw.isLeastCost_endpoints ha hb hab (pathCosts_tariff hw h ha)
  have hcost (ext int s : Nat) :
      ext + (int + s) * hops + (s + ext) = 2 * ext + hops * int + (hops + 1) * s := by
    rw [Nat.mul_comm _ hops, Nat.mul_add, Nat.succ_mul hops]
    omega
  rw [latency_of_isLeastCost hw h hN ha hb hc, g.travel_mul, hcost]

theorem latency_self (hw : Wiring t cs shape g position) (h : create kind t params = .ok n)
    (hN : t.nodeCount ≤ 2 ^ 31) {a : Nat} (ha : a < cs.length) : n.latency a a = .ok (some 0) :=
  latency_of_isLeastCost hw h hN ha ha isLeastCost_source

end Layout

/-- The latencies of a network over any layout of up to `2 ^ 31` nodes. There is one
exactly between endpoints; an endpoint reaches itself at once, and another one over
two external links and the way between their routers, of which a network with
pipelines charges every router in addition. -/
theorem latency_layout {topology : Interconnect.Kind} {cs : ControllerSet} {shape : Shape}
    (ht : layout topology cs shape = .ok t) (hN : t.nodeCount ≤ 2 ^ 31) {kind : Kind}
    {params : Params} {n : Network} (hn : create kind t params = .ok n) (a b : NodeId) :
    (n.latency a b = .ok none ↔ ¬(t.isEndpoint a = true ∧ t.isEndpoint b = true)) ∧
    (t.isEndpoint a = true → n.latency a a = .ok (some 0)) ∧
    (t.isEndpoint a = true → t.isEndpoint b = true → a ≠ b →
      ∃ u v hops, t.neighbours a = [u] ∧ t.neighbours b = [v] ∧ t.isRouter u = true ∧
        t.isRouter v = true ∧ t.hopDistance u v = some hops ∧
        n.latency a b = .ok (some (2 * shape.externalLatency.toNat +
          hops * shape.internalLatency.toNat + (hops + 1) * kind.stages params)) ∧
        ∀ params' m, create .simple t params' = .ok m → n.latency a b =
          (m.latency a b).map fun c => c.map (· + (hops + 1) * kind.stages params)) := by
  obtain ⟨g, position, hw, -⟩ := layout_wiring ht
  simp only [hw.isEndpoint_iff]
  refine ⟨⟨fun h hab => ?_, latency_of_not_endpoint hw hn⟩, fun ha => latency_self hw hn hN ha,
    fun ha hb hab => ?_⟩
  · by_cases e : a = b
    · subst e
      rw [latency_self hw hn hN hab.1] at h
      cases h
    · rw [latency_endpoints hw hn hN hab.1 hab.2 e] at h
      cases h
  · have hpa := hw.position_lt a ha
    have hpb := hw.position_lt b hb
    have hc := latency_endpoints hw hn hN ha hb hab
    refine ⟨_, _, _, hw.neighbours_endpoint ha, hw.neighbours_endpoint hb, hw.isRouter_router hpa,
      hw.isRouter_router hpb, hw.hopDistance_routers hpa hpb, hc, fun params' m hm => ?_⟩
    rw [hc, latency_endpoints hw hm hN ha hb hab]
    rfl

/-- Two sequencers at neighbouring routers with pipelines of four stages. -/
theorem latency_layout_pair : ∃ t n,
    layout .mesh [.sequencer 0, .sequencer 1] {} = .ok t ∧ create .fixedGarnet t {} = .ok n ∧
      n.latency 0 1 = .ok (some 11) := by
  have hg : meshGrid [.sequencer 0, .sequencer 1] 1 = .ok ⟨1, 2, by decide, by decide⟩ := rfl
  have ht : layout .mesh [.sequencer 0, .sequencer 1] {} = .ok _ := meshOf_of_meshGrid .mesh hg
  have hn : create .fixedGarnet (meshOver .mesh ⟨1, 2, by decide, by decide⟩
    [.sequencer 0, .sequencer 1] {}) {} = .ok _ := rfl
  obtain ⟨u, v, hops, hu, hv, -, -, hh, hc, -⟩ :=
    (latency_layout ht (by decide) hn 0 1).2.2 (by decide) (by decide) (by decide)
  cases hu
  cases hv
  cases hh
  exact ⟨_, _, ht, hn, hc⟩

end CoherentMemory.Network
