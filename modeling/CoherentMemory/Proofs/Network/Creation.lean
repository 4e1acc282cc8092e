import CoherentMemory.Proofs.Interconnect.Shapes
import CoherentMemory.Proofs.Interconnect.Sums
import CoherentMemory.Proofs.Network.Sizing

/-!
# Which networks can be created

Over a layout a network exists exactly if its numbers fit in 64 bits
(`exists_create_iff`): for the simple model the sums of latencies that its table
is computed from (`LatenciesFit`), for the detailed one the buffer slots of every
router, counted exactly (`BuffersFit`).
-/

namespace CoherentMemory

open Interconnect

/-! ## Networks -/

namespace Network

/-- No sum of latencies leaves 64 bits: neither those of ways from an endpoint, nor
those with one link more. -/
def LatenciesFit (t : Topology) : Prop :=
  ∀ a, t.isEndpoint a = true → SumsFit t linkLatency a

/-- No router has more buffer slots than fit in 64 bits: for each of its links, as many
channels of both classes as there are, each with its buffers. -/
def BuffersFit (t : Topology) (params : PipelinedParams) : Prop :=
  ∀ r ∈ t.routers, t.degree r.id * (params.vcsPerClass.toNat *
    (params.buffersPerDataVc.toNat + params.buffersPerCtrlVc.toNat)) < 2 ^ 64

section Wiring

variable {t : Topology} {cs : ControllerSet} {shape : Shape} {g : Grid} {position : Nat → Nat}

theorem PointToPoint.exists_ofTopology_iff (hw : Wiring t cs shape g position)
    (params : PointToPointParams) :
    (∃ m, PointToPoint.ofTopology t params = .ok m) ↔ LatenciesFit t := by
  have row (endpoints : List NodeId) {a : Nat} (ha : a < cs.length) :
      (∃ r, latenciesFrom t endpoints a = .ok r) ↔ SumsFit t linkLatency a := by
    rw [← exists_leastCosts_iff hw.linksInRange (hw.endpoint_lt ha)]
    exact exists_map_iff
  rw [PointToPoint.ofTopology, hw.map_id_endpoints, exists_map_iff, exists_mapM_iff]
  exact forall_congr' fun a => by
    rw [hw.isEndpoint_iff, List.mem_range]
    exact imp_congr_right fun ha => row _ ha

namespace Pipelined

theorem exists_ofTopology_iff (hw : Wiring t cs shape g position) (hcs : 0 < cs.length)
    (v : Variant) (params : PipelinedParams) :
    (∃ m, (ofTopology t v params).result = .ok m) ↔ BuffersFit t params :=
  exists_ofTopology_eq_ok_iff hw hcs

end Pipelined

end Wiring

/-- With up to `2 ^ 31` nodes the latencies of a layout fit. -/
theorem latenciesFit_of_nodeCount_le {kind : Interconnect.Kind} {cs : ControllerSet}
    {shape : Shape} {t : Topology} (ht : layout kind cs shape = .ok t)
    (hN : t.nodeCount ≤ 2 ^ 31) : LatenciesFit t := by
  obtain ⟨g, position, hw, -⟩ := layout_wiring ht
  intro a ha
  rw [hw.isEndpoint_iff] at ha
  rw [← exists_leastCosts_iff hw.linksInRange (hw.endpoint_lt ha)]
  exact (moderate_linkLatency t).exists_leastCosts hw.linksInRange hN a

/-- In a single row of routers some one is at least half of the row away. -/
theorem exists_far_router {g : Grid} (hrows : g.rows = 1) {p : Nat} (hp : p < g.positions) :
    ∃ q < g.positions, (g.columns - 1) / 2 ≤ g.travel false 1 1 p q := by
  have hpos : g.positions = g.columns := by
    rw [Grid.positions, hrows, Nat.one_mul]
  have hcolumns := g.columns_pos
  have row {q : Nat} (hq : q < g.columns) :
      g.travel false 1 1 p q = (p - q) + (q - p) := by
    rw [hpos] at hp
    rw [Grid.travel, Nat.mod_eq_of_lt hp, Nat.mod_eq_of_lt hq, Nat.div_eq_of_lt hp,
      Nat.div_eq_of_lt hq, axisDistance_self, Nat.one_mul, Nat.mul_zero, Nat.add_zero]
    rfl
  by_cases h : p ≤ (g.columns - 1) / 2
  · refine ⟨g.columns - 1, by omega, ?_⟩
    rw [row (by omega)]
    omega
  · refine ⟨0, by omega, ?_⟩
    rw [row hcolumns]
    omega

/-- The latencies along a row do not fit if those of one half leave 64 bits. -/
theorem not_latenciesFit_of_row {t : Topology} {cs : ControllerSet} {shape : Shape} {g : Grid}
    {position : Nat → Nat} (hw : Wiring t cs shape g position) (hcs : 0 < cs.length)
    (hrows : g.rows = 1) (hwrap : shape.wraparound = false)
    (hlong : 2 ^ 64 ≤ shape.internalLatency.toNat * ((g.columns - 1) / 2)) :
    ¬LatenciesFit t := by
  intro hfit
  have htariff : Tariff t linkLatency 0 cs.length g shape shape.externalLatency.toNat
      shape.internalLatency.toNat shape.internalLatency.toNat 0 :=
    .of_links (fun _ => rfl) (fun _ _ => rfl) (fun _ _ => rfl) (fun _ _ => rfl)
  obtain ⟨q, hq, hfar⟩ := exists_far_router hrows (hw.position_lt 0 hcs)
  have hcost := hw.isLeastCost_endpoint_router hcs hq htariff
  have hmul := Nat.mul_le_mul_left shape.internalLatency.toNat hfar
  rw [hwrap, Nat.add_zero, g.travel_mul] at hcost
  -- the router has a link, and already the way to it costs too much
  have hv := hw.router_lt hq
  have hdegree : 0 < (t.linksOf (cs.length + q)).length := by
    rw [length_linksOf (fun l => hw.ends_ne) hv]
    exact hw.degree_router hcs (Nat.le_add_right ..) hv
  obtain ⟨l, hl⟩ := List.exists_mem_of_length_pos hdegree
  have hsum := hfit 0 (hw.isEndpoint_iff.mpr hcs) _ _ hcost l hl
  omega

/-- Over a layout the simple model exists if the latencies fit, and the detailed one in
both variants if the buffer slots do. -/
theorem exists_create_iff {kind : Interconnect.Kind} {cs : ControllerSet} {shape : Shape}
    {t : Topology} (ht : layout kind cs shape = .ok t) (network : Kind) (params : Params) :
    (∃ n, create network t params = .ok n) ↔
      if network = .simple then LatenciesFit t else BuffersFit t params.pipelined := by
  obtain ⟨g, position, hw, -⟩ := layout_wiring ht
  have hcs := layout_length_pos ht
  rcases network.eq_simple_or_variant with rfl | ⟨v, rfl⟩
  · rw [if_pos rfl, ← PointToPoint.exists_ofTopology_iff hw params.pointToPoint]
    simp only [create_simple, bind_eq_ok, mapError_eq_ok]
    exact ⟨fun ⟨_, m, hm, _⟩ => ⟨m, hm⟩, fun ⟨m, hm⟩ => ⟨_, m, hm, rfl⟩⟩
  · rw [if_neg v.kind_ne_simple, ← Pipelined.exists_ofTopology_iff hw hcs v]
    simp only [create_variant, bind_eq_ok, mapError_eq_ok]
    exact ⟨fun ⟨_, m, hm, _⟩ => ⟨m, hm⟩, fun ⟨m, hm⟩ => ⟨_, m, hm, rfl⟩⟩

end Network

end CoherentMemory
