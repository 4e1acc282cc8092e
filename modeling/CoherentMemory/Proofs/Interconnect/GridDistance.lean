import CoherentMemory.Proofs.Interconnect.Distance
import CoherentMemory.Proofs.Interconnect.Flood
import CoherentMemory.Proofs.Interconnect.Search

/-!
# What the searches find in a layout

Both searches compute least costs, and in a layout the least costs are those of
the grid: the breadth-first search finds them at the rates of `Tariff.hops`
(`Wiring.hopDistance_routers`, `Wiring.hopDistance_endpoints`), the other one at any
rates that keep the costs within 64 bits (`Wiring.leastCosts_routers`,
`Wiring.leastCosts_endpoints`). `layout_distances` says so for the layouts of all
families.
-/

namespace CoherentMemory.Interconnect

/-- Links cost their routing weights, nodes nothing. -/
def weightCosts : CostModel where
  node _ := 0
  link l := l.weight

/-- A cost below this keeps every sum over up to `2 ^ 31` nodes within 64 bits. -/
def costBound : Nat := 2 ^ 32 - 1

/-- No node and no link costs more than `costBound`. -/
structure CostModel.Moderate (costs : CostModel) (t : Topology) : Prop where
  link_le : ∀ l ∈ t.links, costs.link l ≤ costBound
  node_le : ∀ n ∈ t.nodes, costs.node n ≤ costBound

/-- The search has a result at moderate costs. -/
theorem CostModel.Moderate.exists_leastCosts {t : Topology} {costs : CostModel}
    (hm : costs.Moderate t) (hr : t.LinksInRange) (hN : t.nodeCount ≤ 2 ^ 31) (source : NodeId) :
    ∃ best, leastCosts t costs source = .ok best := by
  have hsum : t.nodeCount * (costBound + costBound) < 0x10000000000000000 :=
    Nat.lt_of_le_of_lt (Nat.mul_le_mul_right _ hN) (by decide)
  exact leastCosts_total source hr hm.link_le hm.node_le hsum

/-- The search finds a least cost at moderate costs. -/
theorem leastCosts_of_isLeastCost {t : Topology} {costs : CostModel} {source v : NodeId} {c : Nat}
    (hr : t.LinksInRange) (hs : source < t.nodeCount) (hm : costs.Moderate t)
    (hN : t.nodeCount ≤ 2 ^ 31) (h : IsLeastCost t costs source v c) :
    ∃ best, leastCosts t costs source = .ok best ∧ best[v]? = some (some c) := by
  obtain ⟨best, hbest⟩ := hm.exists_leastCosts hr hN source
  have he := ((isLeastCost_of_leastCosts hr hs hbest).2 v c).mpr h
  exact ⟨best, hbest, Option.join_eq_some_iff.mp he⟩

/-! ## Rates -/

section Rates

variable {t : Topology} {costs : CostModel} {source first : Nat} {g : Grid} {shape : Shape}

/-- Where nodes cost nothing, a tariff is what the links cost. -/
theorem Tariff.of_links (hn : ∀ n, costs.node n = 0) {ext row column : Nat}
    (he : ∀ a b, costs.link (externalLink shape a b) = ext)
    (hr : ∀ a b, costs.link (internalLink shape rowWeight a b) = row)
    (hc : ∀ a b, costs.link (internalLink shape columnWeight a b) = column) :
    Tariff t costs source first g shape ext row column 0 :=
  ⟨he, hr, hc, fun _ _ => transitCost_eq_zero hn _, fun _ _ => transitCost_eq_zero hn _⟩

/-- Every link counts once. -/
theorem Tariff.hops : Tariff t hopCosts source first g shape 1 1 1 0 :=
  .of_links (fun _ => rfl) (fun _ _ => rfl) (fun _ _ => rfl) (fun _ _ => rfl)

/-- A step along a column weighs twice as much as one along a row. -/
theorem Tariff.weights : Tariff t weightCosts source first g shape 1 1 2 0 :=
  .of_links (fun _ => rfl) (fun _ _ => rfl) (fun _ _ => rfl) (fun _ _ => rfl)

end Rates

namespace Wiring

variable {t : Topology} {cs : ControllerSet} {shape : Shape} {g : Grid} {position : Nat → Nat}

theorem endpoint_lt (h : Wiring t cs shape g position) {i : Nat} (hi : i < cs.length) :
    i < t.nodeCount := by
  rw [h.nodeCount_eq]
  exact Nat.lt_add_right _ hi

theorem router_lt (h : Wiring t cs shape g position) {p : Nat} (hp : p < g.positions) :
    cs.length + p < t.nodeCount := by
  rw [h.nodeCount_eq]
  exact Nat.add_lt_add_left hp _

/-- The routing weights are moderate. -/
theorem weightCosts_moderate (h : Wiring t cs shape g position) : weightCosts.Moderate t := by
  refine ⟨fun l hl => ?_, fun n _ => Nat.zero_le _⟩
  rcases h.mem_links.mp hl with ⟨i, -, rfl⟩ | hf
  · show externalWeight ≤ costBound
    decide
  · rcases mem_fabric.mp hf with ⟨r, -, i, j, -, rfl⟩ | ⟨c, -, i, j, -, rfl⟩
    · show rowWeight ≤ costBound
      decide
    · show columnWeight ≤ costBound
      decide

/-! ## Distances of a wiring -/

theorem hopDistance_routers (h : Wiring t cs shape g position) {o q : Nat} (ho : o < g.positions)
    (hq : q < g.positions) :
    t.hopDistance (cs.length + o) (cs.length + q) = some (g.travel shape.wraparound 1 1 o q) :=
  (hopDistance_eq_some h.linksInRange (h.router_lt ho) (h.router_lt hq)).mpr
    (h.isLeastCost_routers ho hq .hops)

/-- From endpoint to endpoint there are two external links besides the way between
their routers. -/
theorem hopDistance_endpoints (h : Wiring t cs shape g position) {a b : Nat} (ha : a < cs.length)
    (hb : b < cs.length) (hab : a ≠ b) :
    t.hopDistance a b = some (2 + g.travel shape.wraparound 1 1 (position a) (position b)) := by
  have hc := h.isLeastCost_endpoints ha hb hab .hops
  rw [Nat.add_right_comm 1] at hc
  exact (hopDistance_eq_some h.linksInRange (h.endpoint_lt ha) (h.endpoint_lt hb)).mpr hc

theorem leastCosts_weight_routers (h : Wiring t cs shape g position) (hN : t.nodeCount ≤ 2 ^ 31)
    {o q : Nat} (ho : o < g.positions) (hq : q < g.positions) :
    ∃ best, leastCosts t weightCosts (cs.length + o) = .ok best ∧
      best[cs.length + q]? = some (some (g.travel shape.wraparound 1 2 o q)) :=
  leastCosts_of_isLeastCost h.linksInRange (h.router_lt ho) h.weightCosts_moderate hN
    (h.isLeastCost_routers ho hq .weights)

end Wiring

/-! ## Distances of a layout -/

/-- On the grid of a single router there is nowhere to go. -/
theorem travel_single (w : Bool) (x y : Nat) {p q : Nat} (hp : p < Grid.single.positions)
    (hq : q < Grid.single.positions) : Grid.single.travel w x y p q = 0 := by
  rw [Nat.lt_one_iff.mp hp, Nat.lt_one_iff.mp hq, Grid.travel_self]

/-- Distances in a layout are grid distances. The routers of a mesh fill a grid with
the rows of its shape, and between two of them the distances along both dimensions
add up; by routing weights the one along the column counts twice. Between endpoints
it is two more than between their routers, and two in a crossbar. -/
theorem layout_distances {kind : Kind} {cs : ControllerSet} {shape : Shape} {t : Topology}
    (h : layout kind cs shape = .ok t) :
    (kind ≠ .crossbar → ∃ g, t.grid = some g ∧ g.rows = shape.rows ∧
      t.nodeCount = cs.length + g.rows * g.columns ∧
      ∀ r₁ < g.rows, ∀ c₁ < g.columns, ∀ r₂ < g.rows, ∀ c₂ < g.columns,
        let source := cs.length + g.index r₁ c₁
        let target := cs.length + g.index r₂ c₂
        let dx := axisDistance shape.wraparound g.columns c₁ c₂
        let dy := axisDistance shape.wraparound g.rows r₁ r₂
        t.isRouter source = true ∧ t.hopDistance source target = some (dx + dy) ∧
          (t.nodeCount ≤ 2 ^ 31 → ∃ best, leastCosts t weightCosts source = .ok best ∧
            best[target]? = some (some (dx + 2 * dy)))) ∧
    (∀ a b, t.isEndpoint a = true → t.isEndpoint b = true → a ≠ b →
      ∃ u v d, t.neighbours a = [u] ∧ t.neighbours b = [v] ∧ t.isRouter u = true ∧
        t.isRouter v = true ∧ t.hopDistance u v = some d ∧ t.hopDistance a b = some (2 + d)) ∧
    (kind = .crossbar → ∀ a b, t.isEndpoint a = true → t.isEndpoint b = true → a ≠ b →
      t.hopDistance a b = some 2) := by
  obtain ⟨g, position, hw, hcrossbar, hmesh⟩ := layout_wiring h
  refine ⟨fun hk => ?_, fun a b ha hb hab => ?_, fun hk a b ha hb hab => ?_⟩
  · obtain ⟨hgrid, hrows⟩ := hmesh hk
    refine ⟨g, hgrid, hrows, hw.nodeCount_eq, ?_⟩
    intro r₁ hr₁ c₁ hc₁ r₂ hr₂ c₂ hc₂ source target dx dy
    have ho := g.index_lt hr₁ hc₁
    have hq := g.index_lt hr₂ hc₂
    refine ⟨hw.isRouter_router ho, ?_, fun hN => ?_⟩
    · rw [hw.hopDistance_routers ho hq, g.travel_index _ 1 1 hc₁ hc₂, Nat.one_mul, Nat.one_mul]
    · have hbest := hw.leastCosts_weight_routers hN ho hq
      rwa [g.travel_index _ 1 2 hc₁ hc₂, Nat.one_mul] at hbest
  · rw [hw.isEndpoint_iff] at ha hb
    have hpa := hw.position_lt a ha
    have hpb := hw.position_lt b hb
    exact ⟨_, _, _, hw.neighbours_endpoint ha, hw.neighbours_endpoint hb, hw.isRouter_router hpa,
      hw.isRouter_router hpb, hw.hopDistance_routers hpa hpb, hw.hopDistance_endpoints ha hb hab⟩
  · obtain ⟨rfl, -⟩ := hcrossbar hk
    rw [hw.isEndpoint_iff] at ha hb
    rw [hw.hopDistance_endpoints ha hb hab,
      travel_single _ 1 1 (hw.position_lt a ha) (hw.position_lt b hb)]

/-- A torus of three rows and three columns: its first and its last router are next
to each other along both dimensions. -/
theorem layout_distances_torus : ∃ t,
    layout .mesh ((List.range 9).map .sequencer) { rows := 3, wraparound := true } = .ok t ∧
      t.hopDistance 9 17 = some 2 := by
  have hg : meshGrid ((List.range 9).map .sequencer) 3 = .ok ⟨3, 3, by decide, by decide⟩ := rfl
  have h : layout .mesh ((List.range 9).map .sequencer) { rows := 3, wraparound := true } = .ok _ :=
    meshOf_of_meshGrid .mesh hg
  obtain ⟨g, e, -, -, hdist⟩ := (layout_distances h).1 (by decide)
  cases e
  exact ⟨_, h, (hdist 0 (by decide) 0 (by decide) 2 (by decide) 2 (by decide)).2.1⟩

end CoherentMemory.Interconnect
