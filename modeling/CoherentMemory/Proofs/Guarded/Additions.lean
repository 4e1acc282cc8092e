import CoherentMemory.Proofs.Guarded.Network
import CoherentMemory.Proofs.Interconnect.Additions
import CoherentMemory.Proofs.Interconnect.PathCost

/-!
# Guarded sums

The additions of the searches for least costs, in topologies of any number of nodes. If the
largest costs of a link and of a node, each taken once for every node, are together a number
of 64 bits, so is every sum that is formed on the way, and the search ends with a result in
guarded operations too (`AddsUp`). Latencies and pipelines are numbers of 32 bits, so this
is so for all searches of a network of up to `2 ^ 31` nodes (`searches_addUp`).
-/

namespace CoherentMemory.Guarded

open Interconnect Network

/-- No addition of the search from `source` leaves 64 bits in any state that it comes by, and
with all operations guarded it ends with the same result. -/
structure AddsUp (t : Topology) (costs : CostModel) (source : NodeId) : Prop where
  sum_lt : ∀ s, Reached t costs source s → ∀ a b, Adds t costs source s a b → a + b < 2 ^ 64
  leastCosts_eq : ∃ best, Interconnect.leastCosts t costs source = .ok best ∧
    leastCosts t costs source = .ok best

variable {t : Topology} {costs : CostModel} {source : NodeId}

/-- A search with a result has formed no sum beyond 64 bits. -/
theorem addsUp_of_leastCosts (hr : t.LinksInRange) {best : Array (Option Nat)}
    (h : Interconnect.leastCosts t costs source = .ok best) : AddsUp t costs source := by
  refine ⟨fun s hs a b hadds => ?_, best, h, leastCosts_eq hr h⟩
  exact hs.sum_lt hr (sumsFit_of_leastCosts hr hs.source_lt h) hadds

theorem addsUp_of_moderate (hr : t.LinksInRange) (hN : t.nodeCount ≤ 2 ^ 31)
    (hm : costs.Moderate t) (source : NodeId) : AddsUp t costs source := by
  obtain ⟨best, hbest⟩ := hm.exists_leastCosts hr hN source
  exact addsUp_of_leastCosts hr hbest

/-- If the number of nodes times the largest costs of a link and of a node is a number of 64
bits, a search forms no sum beyond them. In a layout of up to `2 ^ 31` nodes, whatever its
latencies and the depths of its pipelines, neither the table of the simple model nor any
latency of a detailed one takes such a sum. -/
theorem searches_addUp :
    (∀ (t : Topology) (costs : CostModel) (linkBound nodeBound : Nat), t.LinksInRange →
      (∀ l ∈ t.links, costs.link l ≤ linkBound) → (∀ n ∈ t.nodes, costs.node n ≤ nodeBound) →
      t.nodeCount * linkBound + t.nodeCount * nodeBound < 2 ^ 64 →
      ∀ source, AddsUp t costs source) ∧
    ∀ (kind : Interconnect.Kind) (cs : ControllerSet) (shape : Shape) (t : Topology),
      Interconnect.layout kind cs shape = .ok t → t.nodeCount ≤ 2 ^ 31 →
      (∀ source, AddsUp t linkLatency source) ∧
      (∀ params, ∃ m, PointToPoint.ofTopology t params = .ok m ∧ pointToPoint t params = .ok m) ∧
      ∀ m : Pipelined, (∀ source, AddsUp t m.costs source) ∧
        ∀ a b, ∃ l, m.latency t a b = .ok l ∧ searchLatency m t a b = .ok l := by
  constructor
  · intro t costs linkBound nodeBound hr hl hn hN source
    rw [← Nat.mul_add] at hN
    obtain ⟨best, hbest⟩ := leastCosts_total source hr hl hn hN
    exact addsUp_of_leastCosts hr hbest
  · intro kind cs shape t ht hN
    obtain ⟨g, position, hw, -⟩ := layout_wiring ht
    have hr := hw.linksInRange
    refine ⟨addsUp_of_moderate hr hN (moderate_linkLatency t), exists_pointToPoint ht hN,
      fun m => ⟨addsUp_of_moderate hr hN (m.moderate_costs t), fun a b => ?_⟩⟩
    obtain ⟨best, hbest⟩ := (m.moderate_costs t).exists_leastCosts hr hN a
    exact exists_searchLatency hr hbest b

/-- Links that are as slow as they can be. -/
def slowLinks : Shape where
  externalLatency := 0xffffffff
  internalLatency := 0xffffffff

/-- Two sequencers at neighbouring routers. -/
def slowPair : Topology :=
  Interconnect.meshOver .mesh ⟨1, 2, by decide, by decide⟩ [.sequencer 0, .sequencer 1] slowLinks

/-- Routers with pipelines as deep as they can be. -/
def deepRouters : Pipelined where
  variant := .flexible
  params := { pipelineStages := 0xffffffff }
  routers := [⟨2, 2, 0xffffffff, 4, 40⟩, ⟨3, 2, 0xffffffff, 4, 40⟩]
  links := []

/-- From one sequencer to the other there are three links and two routers. -/
theorem searches_addUp_slowPair : crossroads.LinksInRange ∧
    (∀ l ∈ crossroads.links, tolls.link l ≤ 9) ∧ (∀ n ∈ crossroads.nodes, tolls.node n ≤ 5) ∧
    crossroads.nodeCount * 9 + crossroads.nodeCount * 5 < 2 ^ 64 ∧ AddsUp crossroads tolls 0 ∧
    Interconnect.layout .mesh [.sequencer 0, .sequencer 1] slowLinks = .ok slowPair ∧
    slowPair.nodeCount ≤ 2 ^ 31 ∧ AddsUp slowPair deepRouters.costs 0 ∧
    searchLatency deepRouters slowPair 0 1 = .ok (some (5 * 0xffffffff)) := by
  have hr := crossroads_linksInRange
  have hl : ∀ l ∈ crossroads.links, tolls.link l ≤ 9 := by decide
  have hn : ∀ n ∈ crossroads.nodes, tolls.node n ≤ 5 := by decide
  have hN : crossroads.nodeCount * 9 + crossroads.nodeCount * 5 < 2 ^ 64 := by decide
  have hg : Interconnect.meshGrid [.sequencer 0, .sequencer 1] 1 =
      .ok ⟨1, 2, by decide, by decide⟩ := rfl
  have ht : Interconnect.layout .mesh [.sequencer 0, .sequencer 1] slowLinks = .ok slowPair :=
    meshOf_of_meshGrid .mesh hg
  have hsize : slowPair.nodeCount ≤ 2 ^ 31 := by decide
  obtain ⟨hany, hlayout⟩ := searches_addUp
  obtain ⟨-, -, hdeep⟩ := hlayout _ _ _ _ ht hsize
  obtain ⟨hadds, hlatency⟩ := hdeep deepRouters
  obtain ⟨l, hl₁, hguarded⟩ := hlatency 0 1
  have h5 : deepRouters.latency slowPair 0 1 = .ok (some (5 * 0xffffffff)) := rfl
  rw [h5] at hl₁
  cases hl₁
  exact ⟨hr, hl, hn, hN, hany _ _ 9 5 hr hl hn hN 0, ht, hsize, hadds 0, hguarded⟩

end CoherentMemory.Guarded
