import CoherentMemory.Proofs.Interconnect.GridDistance
import CoherentMemory.Proofs.Success

/-!
# Layouts are well formed

What every query about a layout rests on (`Topology.WellFormed`): the endpoints of the
controllers come first and in their order, then the routers; links have two different
ends, which agree with their kind; every endpoint has a single link, every router has
one at least, and from each node links lead to each other one. `layout_wellFormed` says
so for the layouts of all families. All of it is read off the `Wiring` of a layout, and
that nodes are connected off the routes between its routers (`Wiring.connects`).
-/

namespace CoherentMemory.Interconnect

namespace Topology

/-- The number of links that have the node as an end. -/
def degree (t : Topology) (v : NodeId) : Nat :=
  t.links.countP fun l => l.a = v || l.b = v

/-- Links lead from the one node to the other. -/
def Connects (t : Topology) : NodeId → NodeId → Prop :=
  Relation.ReflTransGen fun u v => v ∈ t.neighbours u

/-- A topology over the controllers `cs` as layouts of the given shape are to be. -/
structure WellFormed (t : Topology) (cs : ControllerSet) (shape : Shape) : Prop where
  id_eq : ∀ {v n}, t.node? v = some n → n.id = v
  endpoint : ∀ {i c}, cs[i]? = some c → t.node? i = some ⟨i, .endpoint i c.name c.role⟩
  router : ∀ {v n}, cs.length ≤ v → t.node? v = some n → n.kind = .router
  ends : ∀ l ∈ t.links, l.a < t.nodeCount ∧ l.b < t.nodeCount ∧ l.a ≠ l.b
  external : ∀ l ∈ t.links, l.kind = .external →
    l.a < cs.length ∧ cs.length ≤ l.b ∧ l.weight = 1 ∧ l.latency = shape.externalLatency
  internal : ∀ l ∈ t.links, l.kind = .internal →
    cs.length ≤ l.a ∧ cs.length ≤ l.b ∧ l.latency = shape.internalLatency
  degree_endpoint : ∀ {i}, i < cs.length → t.degree i = 1
  degree_router : ∀ {v}, cs.length ≤ v → v < t.nodeCount → 0 < t.degree v
  connects : ∀ {u v}, u < t.nodeCount → v < t.nodeCount → t.Connects u v

end Topology

variable {t : Topology}

/-! ## Degrees -/

/-- Where links join different nodes, those of a node are entered under it once each. -/
theorem linksOf_eq_filter (h : ∀ l ∈ t.links, l.a ≠ l.b) {v : NodeId} (hv : v < t.nodeCount) :
    t.linksOf v = t.links.filter fun l => l.a = v || l.b = v := by
  have entries (links : List Link) (h : ∀ l ∈ links, l.a ≠ l.b) :
      links.flatMap (Link.entriesAt v) = links.filter fun l => l.a = v || l.b = v := by
    induction links with
    | nil => rfl
    | cons l links ih =>
      rw [List.forall_mem_cons] at h
      rw [List.flatMap_cons, ih h.2, Link.entriesAt_eq h.1, List.filter_cons]
      by_cases hl : l.a = v ∨ l.b = v <;> simp [hl]
  rw [linksOf_eq t hv, entries t.links h]

theorem length_linksOf (h : ∀ l ∈ t.links, l.a ≠ l.b) {v : NodeId} (hv : v < t.nodeCount) :
    (t.linksOf v).length = t.degree v := by
  rw [linksOf_eq_filter h hv, ← List.countP_eq_length_filter]
  rfl

theorem degree_pos_of_joins {l : Link} (hl : l ∈ t.links) {u v : NodeId} (hj : l.Joins u v) :
    0 < t.degree v := by
  refine List.countP_pos_iff.mpr ⟨l, hl, ?_⟩
  rcases hj with ⟨-, rfl⟩ | ⟨-, rfl⟩ <;> simp

/-! ## Connections -/

/-- What a route leads to is connected to its source. -/
theorem Route.connects {costs : CostModel} {source v : NodeId} {c : Nat} (hr : t.LinksInRange)
    (hs : source < t.nodeCount) (h : Route t costs source v c) : t.Connects source v := by
  induction h with
  | start => exact .refl
  | extend hu hl hj ih => exact ih.tail (mem_neighbours.mpr ⟨hu.lt_nodeCount hr hs, _, hl, hj⟩)

/-- Links lead in both directions. -/
theorem Topology.Connects.symm (hr : t.LinksInRange) {u v : NodeId} (h : t.Connects u v) :
    t.Connects v u := by
  induction h with
  | refl => exact .refl
  | tail _ hw ih =>
    obtain ⟨-, l, hl, hj⟩ := mem_neighbours.mp hw
    exact .head (mem_neighbours.mpr ⟨hr.lt_of_joins hl hj, l, hl, hj.symm⟩) ih

/-- A node that another one is connected to has a link. -/
theorem Topology.Connects.degree_pos {u v : NodeId} (h : t.Connects u v) (hne : u ≠ v) :
    0 < t.degree v := by
  rcases Relation.ReflTransGen.cases_tail h with e | ⟨w, -, hw⟩
  · exact absurd e.symm hne
  · obtain ⟨-, l, hl, hj⟩ := mem_neighbours.mp hw
    exact degree_pos_of_joins hl hj

/-! ## Wirings -/

namespace Wiring

variable {cs : ControllerSet} {shape : Shape} {g : Grid} {position : Nat → Nat}

theorem connects_routers (h : Wiring t cs shape g position) {p q : Nat} (hp : p < g.positions)
    (hq : q < g.positions) : t.Connects (cs.length + p) (cs.length + q) :=
  (h.isLeastCost_routers hp hq .hops).1.connects h.linksInRange (h.router_lt hp)

/-- Every node is connected to a router, its own if it is an endpoint. -/
theorem exists_connects_router (h : Wiring t cs shape g position) {v : Nat}
    (hv : v < t.nodeCount) : ∃ p < g.positions, t.Connects v (cs.length + p) := by
  rcases node_cases g cs v with hi | ⟨p, hp, rfl⟩ | hle
  · refine ⟨position v, h.position_lt v hi, .single ?_⟩
    rw [h.neighbours_endpoint hi]
    exact List.mem_singleton_self _
  · exact ⟨p, hp, .refl⟩
  · rw [h.nodeCount_eq] at hv
    omega

theorem connects (h : Wiring t cs shape g position) {u v : Nat} (hu : u < t.nodeCount)
    (hv : v < t.nodeCount) : t.Connects u v := by
  obtain ⟨p, hp, hup⟩ := h.exists_connects_router hu
  obtain ⟨q, hq, hvq⟩ := h.exists_connects_router hv
  exact (hup.trans (h.connects_routers hp hq)).trans (hvq.symm h.linksInRange)

/-- A link of the fabric has two different ends. -/
theorem fabric_ne {first : Nat} {l : Link} (hl : l ∈ fabric g first shape) : l.a ≠ l.b := by
  have step {w : Bool} {n i j : Nat} (h : (i, j) ∈ steps w n) : i ≠ j := by
    rcases mem_steps.mp h with h | h <;> omega
  rcases mem_fabric.mp hl with ⟨r, -, i, j, hs, rfl⟩ | ⟨c, -, i, j, hs, rfl⟩
  · show first + (r * g.columns + i) ≠ first + (r * g.columns + j)
    have := step hs
    omega
  · show first + (i * g.columns + c) ≠ first + (j * g.columns + c)
    intro e
    exact step hs (Nat.mul_right_cancel g.columns_pos (by omega))

theorem ends_ne (h : Wiring t cs shape g position) {l : Link} (hl : l ∈ t.links) : l.a ≠ l.b := by
  rcases h.mem_links.mp hl with ⟨i, hi, rfl⟩ | hf
  · show i ≠ cs.length + position i
    omega
  · exact fabric_ne hf

theorem degree_endpoint (h : Wiring t cs shape g position) {i : Nat} (hi : i < cs.length) :
    t.degree i = 1 := by
  rw [← length_linksOf (fun l => h.ends_ne) (h.endpoint_lt hi), h.linksOf_endpoint hi]
  rfl

/-- As soon as there is an endpoint, routers have links: the endpoint is connected to
all of them. -/
theorem degree_router (h : Wiring t cs shape g position) (hcs : 0 < cs.length) {v : Nat}
    (hle : cs.length ≤ v) (hv : v < t.nodeCount) : 0 < t.degree v :=
  (h.connects (h.endpoint_lt hcs) hv).degree_pos (Nat.ne_of_lt (Nat.lt_of_lt_of_le hcs hle))

theorem external_of_kind (h : Wiring t cs shape g position) {l : Link} (hl : l ∈ t.links)
    (hk : l.kind = .external) :
    ∃ i < cs.length, l = externalLink shape i (cs.length + position i) := by
  rcases h.mem_links.mp hl with hext | hf
  · exact hext
  · rcases mem_fabric.mp hf with ⟨r, -, i, j, -, rfl⟩ | ⟨c, -, i, j, -, rfl⟩ <;> cases hk

theorem fabric_of_kind (h : Wiring t cs shape g position) {l : Link} (hl : l ∈ t.links)
    (hk : l.kind = .internal) : l ∈ fabric g cs.length shape := by
  rcases h.mem_links.mp hl with ⟨i, -, rfl⟩ | hf
  · cases hk
  · exact hf

theorem wellFormed (h : Wiring t cs shape g position) (hcs : 0 < cs.length) :
    t.WellFormed cs shape where
  id_eq {v n} hn := by
    rcases node_cases g cs v with hi | ⟨p, hp, rfl⟩ | hle
    · rw [h.node?_endpoint hi] at hn
      cases hn
      rfl
    · rw [h.node?_router hp] at hn
      cases hn
      rfl
    · rw [h.node?_of_le hle] at hn
      cases hn
  endpoint {i c} hc := by
    obtain ⟨hi, rfl⟩ := List.getElem?_eq_some_iff.mp hc
    exact h.node?_endpoint hi
  router {v n} hle hn := by
    rcases node_cases g cs v with hi | ⟨p, hp, rfl⟩ | hle
    · exact absurd hi (Nat.not_lt.mpr hle)
    · rw [h.node?_router hp] at hn
      cases hn
      rfl
    · rw [h.node?_of_le hle] at hn
      cases hn
  ends l hl := ⟨(h.linksInRange l hl).1, (h.linksInRange l hl).2, h.ends_ne hl⟩
  external l hl hk := by
    obtain ⟨i, hi, rfl⟩ := h.external_of_kind hl hk
    exact ⟨hi, Nat.le_add_right .., rfl, rfl⟩
  internal l hl hk := by
    rcases mem_fabric.mp (h.fabric_of_kind hl hk) with
      ⟨r, -, i, j, -, rfl⟩ | ⟨c, -, i, j, -, rfl⟩ <;>
      exact ⟨Nat.le_add_right .., Nat.le_add_right .., rfl⟩
  degree_endpoint := h.degree_endpoint
  degree_router := h.degree_router hcs
  connects := h.connects

end Wiring

/-! ## Layouts -/

/-- Without controllers there is no layout. -/
theorem layout_length_pos {kind : Kind} {cs : ControllerSet} {shape : Shape}
    (h : layout kind cs shape = .ok t) : 0 < cs.length := by
  rw [List.length_pos_iff, ← List.isEmpty_eq_false_iff]
  cases he : cs.isEmpty with
  | false => rfl
  | true => cases kind <;> simp [layout, crossbar, meshOf, meshGrid, he, Except.map] at h

/-- There are at most as many routers as controllers. -/
theorem nodeCount_layout_le {kind : Kind} {cs : ControllerSet} {shape : Shape}
    (h : layout kind cs shape = .ok t) : t.nodeCount ≤ 2 * cs.length := by
  have hpos := layout_length_pos h
  have mesh {kind : Kind} (h : meshOf kind cs shape = .ok t) : t.nodeCount ≤ 2 * cs.length := by
    obtain ⟨g, hg, rfl⟩ := map_eq_ok.mp h
    obtain ⟨-, hplaced⟩ := meshGrid_eq_ok hg
    obtain ⟨position, hw⟩ := meshOver_wiring kind hplaced shape
    have hle := cs.length_placed_le
    rw [hw.nodeCount_eq]
    omega
  cases kind with
  | crossbar =>
    rw [(crossbar_wiring h).1.nodeCount_eq]
    show cs.length + 1 * 1 ≤ _
    omega
  | mesh | meshDirCorner => exact mesh h

/-- The grid of routers has at most two links for each of its cells. -/
theorem length_fabric_le (g : Grid) (first : Nat) (shape : Shape) :
    (fabric g first shape).length ≤ 2 * g.positions := by
  have hsteps (n : Nat) : (steps shape.wraparound n).length ≤ n := by
    rw [length_steps]
    split
    · rename_i h
      rw [Bool.and_eq_true, decide_eq_true_eq] at h
      omega
    · omega
  have hrows := Nat.mul_le_mul_left g.rows (hsteps g.columns)
  have hcolumns := Nat.mul_le_mul_left g.columns (hsteps g.rows)
  rw [fabric, List.length_append, rowLinks, columnLinks]
  simp only [List.length_flatMap, List.length_map, List.map_const', List.sum_replicate_nat,
    List.length_range]
  rw [Nat.mul_comm g.columns g.rows] at hcolumns
  rw [Grid.positions]
  omega

/-- There are at most three links for each controller. -/
theorem linkCount_layout_le {kind : Kind} {cs : ControllerSet} {shape : Shape}
    (h : layout kind cs shape = .ok t) : t.linkCount ≤ 3 * cs.length := by
  obtain ⟨g, position, hw, -⟩ := layout_wiring h
  have hnodes := nodeCount_layout_le h
  have hfabric := length_fabric_le g cs.length shape
  rw [hw.nodeCount_eq] at hnodes
  rw [Topology.linkCount, hw.links_perm.length_eq, List.length_append, List.length_map,
    List.length_range]
  omega

/-- The layouts of all families are well formed. -/
theorem layout_wellFormed {kind : Kind} {cs : ControllerSet} {shape : Shape}
    (h : layout kind cs shape = .ok t) : t.WellFormed cs shape := by
  obtain ⟨g, position, hw, -⟩ := layout_wiring h
  exact hw.wellFormed (layout_length_pos h)

/-- A mesh of one sequencer and one directory, with a device controller between them in
the list: the router of the sequencer has three links. -/
theorem layout_wellFormed_shared : ∃ t,
    layout .mesh [.sequencer 0, .dma 0, .directory 0 ⟨0, 63, by decide, by decide⟩] {} = .ok t ∧
      t.WellFormed [.sequencer 0, .dma 0, .directory 0 ⟨0, 63, by decide, by decide⟩] {} ∧
      t.degree 1 = 1 ∧ t.degree 3 = 3 ∧ t.Connects 1 4 := by
  have hg : meshGrid [.sequencer 0, .dma 0, .directory 0 ⟨0, 63, by decide, by decide⟩] 1 =
    .ok ⟨1, 2, by decide, by decide⟩ := rfl
  have h : layout .mesh [.sequencer 0, .dma 0, .directory 0 ⟨0, 63, by decide, by decide⟩] {} =
    .ok _ := meshOf_of_meshGrid .mesh hg
  have hw := layout_wellFormed h
  exact ⟨_, h, hw, hw.degree_endpoint (by decide), by decide, hw.connects (by decide) (by decide)⟩

end CoherentMemory.Interconnect
