import CoherentMemory.Interconnect.LeastCost
import CoherentMemory.Proofs.Interconnect.Incidence

/-!
# Routes

What the searches compute, said without them. A route leads from a source along
links to a node; it pays for its links and for every node that it goes on from,
the source apart (`Route`). `IsLeastCost` says that a cost is that of a route and
that no route is cheaper. With a cost of one for every link (`hopCosts`) the cost
of a route is its length.
-/

namespace CoherentMemory.Interconnect

/-- A route from `source` to a node, with its cost. -/
inductive Route (t : Topology) (costs : CostModel) (source : NodeId) : NodeId → Nat → Prop
  | start : Route t costs source source 0
  | extend {u v : NodeId} {c : Nat} {l : Link} : Route t costs source u c → l ∈ t.links →
      l.Joins u v → Route t costs source v (c + transitCost t costs source u + costs.link l)

/-- The least cost of a route from `source` to a node. -/
def IsLeastCost (t : Topology) (costs : CostModel) (source v : NodeId) (c : Nat) : Prop :=
  Route t costs source v c ∧ ∀ c', Route t costs source v c' → c ≤ c'

/-- Links cost one, nodes nothing: a route costs its number of links. -/
def hopCosts : CostModel where
  node _ := 0
  link _ := 1

/-- The ends of all links are nodes. -/
def Topology.LinksInRange (t : Topology) : Prop :=
  ∀ l ∈ t.links, l.a < t.nodeCount ∧ l.b < t.nodeCount

variable {t : Topology} {costs : CostModel} {source : NodeId}

theorem Topology.LinksInRange.lt_of_joins (h : t.LinksInRange) {l : Link} (hl : l ∈ t.links)
    {u v : NodeId} (hj : l.Joins u v) : v < t.nodeCount := by
  obtain ⟨ha, hb⟩ := h l hl
  rcases hj with ⟨-, rfl⟩ | ⟨-, rfl⟩
  · exact hb
  · exact ha

/-- Routes stay among the nodes. -/
theorem Route.lt_nodeCount (h : t.LinksInRange) (hs : source < t.nodeCount) {v : NodeId} {c : Nat}
    (hr : Route t costs source v c) : v < t.nodeCount := by
  cases hr with
  | start => exact hs
  | extend _ hl hj => exact h.lt_of_joins hl hj

theorem IsLeastCost.unique {v : NodeId} {c c' : Nat} (h : IsLeastCost t costs source v c)
    (h' : IsLeastCost t costs source v c') : c = c' :=
  Nat.le_antisymm (h.2 c' h'.1) (h'.2 c h.1)

theorem isLeastCost_source : IsLeastCost t costs source source 0 :=
  ⟨.start, fun _ _ => Nat.zero_le _⟩

/-- Where nodes cost nothing, neither does going on from one. -/
theorem transitCost_eq_zero (h : ∀ n, costs.node n = 0) (v : NodeId) :
    transitCost t costs source v = 0 := by
  unfold transitCost
  split
  · rfl
  · cases t.node? v with
    | none => rfl
    | some n => exact h n

/-- The table that both searches begin with has an entry for the source only. -/
theorem join_getElem?_start_iff {size source v k : Nat} (h : source < size) :
    ((Array.replicate size (none : Option Nat)).setIfInBounds source (some 0))[v]?.join = some k ↔
      v = source ∧ k = 0 := by
  rw [Array.getElem?_setIfInBounds]
  by_cases e : source = v
  · subst e
    rw [if_pos rfl, if_pos (by rw [Array.size_replicate]; exact h), Option.join_some]
    exact ⟨fun hk => ⟨rfl, (Option.some.inj hk).symm⟩, fun ⟨_, hk⟩ => hk ▸ rfl⟩
  · rw [if_neg e, Array.getElem?_replicate]
    refine ⟨fun hk => ?_, fun ⟨hv, _⟩ => absurd hv.symm e⟩
    split at hk <;> cases hk

end CoherentMemory.Interconnect
