import CoherentMemory.Proofs.Interconnect.Route

/-!
# Walks

A walk goes over links from a source to a node; it may come by a node or take a link
more than once. What it costs is said of the walk as a whole: its links, and the nodes
in its interior, its two ends apart (`Walk.cost`). So it costs as much in the other
direction (`cost_reverse`), and joining two walks makes the node between them an
interior one (`cost_append_le`).

A `Route` pays as it goes, and nothing for coming by its source again. The cheapest
routes and the cheapest walks cost the same (`isLeastCost_iff_isLeast`), so that what is
known of the searches holds of walks.
-/

namespace CoherentMemory.Interconnect

/-- A walk from `source` to a node. -/
inductive Walk (t : Topology) (source : NodeId) : NodeId → Type
  | /-- The walk that stays at its source. -/
    nil : Walk t source source
  | /-- A walk with one more link. -/
    concat {u v : NodeId} (w : Walk t source u) (l : Link) (mem : l ∈ t.links)
      (joins : l.Joins u v) : Walk t source v

/-- What a node in the interior of a walk costs. -/
def nodeCost (t : Topology) (costs : CostModel) (v : NodeId) : Nat :=
  (t.node? v).elim 0 costs.node

namespace Walk

variable {t : Topology} {costs : CostModel} {a b c u v : NodeId}

/-- The links of a walk, in the order in which it takes them. -/
def links : {v : NodeId} → Walk t a v → List Link
  | _, .nil => []
  | _, .concat w l _ _ => w.links ++ [l]

/-- The nodes that a walk comes by, both ends included. -/
def nodes : {v : NodeId} → Walk t a v → List NodeId
  | _, .nil => [a]
  | v, .concat w _ _ _ => w.nodes ++ [v]

/-- The nodes that a walk comes by between its ends. -/
def interior (w : Walk t a b) : List NodeId :=
  w.nodes.tail.dropLast

/-- The number of links of a walk. -/
def length (w : Walk t a b) : Nat :=
  w.links.length

/-- What a walk costs: its links and the nodes of its interior. -/
def cost (costs : CostModel) (w : Walk t a b) : Nat :=
  (w.links.map costs.link).sum + (w.interior.map (nodeCost t costs)).sum

/-- One walk and then another. -/
def append (p : Walk t a b) : {c : NodeId} → Walk t b c → Walk t a c
  | _, .nil => p
  | _, .concat q l mem joins => (p.append q).concat l mem joins

/-- The walk in the other direction. -/
def reverse : {v : NodeId} → Walk t a v → Walk t v a
  | _, .nil => .nil
  | _, .concat w l mem joins => (Walk.nil.concat l mem joins.symm).append w.reverse

/-! ## Nodes and links -/

theorem links_concat_ne_nil (w : Walk t a u) {l : Link} (mem : l ∈ t.links) (joins : l.Joins u v) :
    (w.concat l mem joins).links ≠ [] :=
  List.append_ne_nil_of_right_ne_nil _ (List.cons_ne_nil l [])

theorem eq_of_links_eq_nil (w : Walk t a b) (h : w.links = []) : a = b := by
  cases w with
  | nil => rfl
  | concat w l mem joins => exact absurd h (w.links_concat_ne_nil mem joins)

/-- A walk comes by its source first. -/
theorem nodes_eq_cons (w : Walk t a b) : w.nodes = a :: w.nodes.tail := by
  induction w with
  | nil => rfl
  | concat w l _ _ ih =>
    rw [nodes, ih]
    rfl

theorem tail_nodes_concat (w : Walk t a u) {l : Link} (mem : l ∈ t.links) (joins : l.Joins u v) :
    (w.concat l mem joins).nodes.tail = w.nodes.tail ++ [v] := by
  rw [nodes, w.nodes_eq_cons]
  rfl

/-- With one more link the last node of a walk is an interior one. -/
theorem interior_concat (w : Walk t a u) {l : Link} (mem : l ∈ t.links) (joins : l.Joins u v) :
    (w.concat l mem joins).interior = w.nodes.tail := by
  rw [interior, tail_nodes_concat, List.dropLast_concat]

@[simp] theorem links_append (p : Walk t a b) (q : Walk t b c) :
    (p.append q).links = p.links ++ q.links := by
  induction q with
  | nil => exact (List.append_nil _).symm
  | concat q l _ _ ih => rw [append, links, links, ih, List.append_assoc]

@[simp] theorem nodes_append (p : Walk t a b) (q : Walk t b c) :
    (p.append q).nodes = p.nodes ++ q.nodes.tail := by
  induction q with
  | nil => exact (List.append_nil _).symm
  | concat q l mem joins ih => rw [append, nodes, ih, tail_nodes_concat, List.append_assoc]

@[simp] theorem links_reverse (w : Walk t a b) : w.reverse.links = w.links.reverse := by
  induction w with
  | nil => rfl
  | concat w l _ _ ih =>
    rw [reverse, links_append, ih, links, links, links, List.reverse_append]
    rfl

@[simp] theorem nodes_reverse (w : Walk t a b) : w.reverse.nodes = w.nodes.reverse := by
  induction w with
  | nil => rfl
  | @concat u v w l _ _ ih =>
    calc (reverse (.concat w l _ _)).nodes
      _ = v :: u :: w.reverse.nodes.tail := by rw [reverse, nodes_append]; rfl
      _ = v :: w.reverse.nodes := by rw [← w.reverse.nodes_eq_cons]
      _ = (w.nodes ++ [v]).reverse := by rw [ih, List.reverse_append]; rfl

theorem interior_reverse (w : Walk t a b) : w.reverse.interior = w.interior.reverse := by
  rw [interior, interior, nodes_reverse, List.tail_reverse, List.dropLast_reverse,
    List.tail_dropLast]

/-! ## Costs -/

theorem cost_nil : (.nil : Walk t a a).cost costs = 0 :=
  rfl

/-- One more link makes the last node an interior one, unless it is the source of a walk
without links. -/
theorem cost_concat (w : Walk t a u) {l : Link} (mem : l ∈ t.links) (joins : l.Joins u v) :
    (w.concat l mem joins).cost costs =
      w.cost costs + (if w.links = [] then 0 else nodeCost t costs u) + costs.link l := by
  have hlinks : ((w.concat l mem joins).links.map costs.link).sum =
      (w.links.map costs.link).sum + costs.link l := by
    rw [links, List.map_append, List.sum_append, List.map_singleton, List.sum_singleton]
  have hnodes : (w.nodes.tail.map (nodeCost t costs)).sum =
      (w.interior.map (nodeCost t costs)).sum +
        if w.links = [] then 0 else nodeCost t costs u := by
    cases w with
    | nil => rfl
    | concat w k mem joins =>
      rw [interior_concat, tail_nodes_concat, List.map_append, List.sum_append, List.map_singleton,
        List.sum_singleton, if_neg (w.links_concat_ne_nil mem joins)]
  rw [cost, cost, interior_concat, hlinks, hnodes]
  omega

/-- A walk costs the same in both directions. -/
theorem cost_reverse (w : Walk t a b) : w.reverse.cost costs = w.cost costs := by
  rw [cost, cost, links_reverse, interior_reverse, List.map_reverse, List.map_reverse,
    List.sum_reverse, List.sum_reverse]

/-- Two walks in turn cost what each of them does, and the node between them. -/
theorem cost_append_le (p : Walk t a b) (q : Walk t b c) :
    (p.append q).cost costs ≤ p.cost costs + nodeCost t costs b + q.cost costs := by
  induction q with
  | nil =>
    rw [append, cost_nil]
    omega
  | concat q l mem joins ih =>
    rw [append, cost_concat, cost_concat, links_append]
    cases q with
    | nil =>
      -- the node before the link is the one between the walks
      rw [append, cost_nil]
      split <;> simp [links]
    | concat q k mem joins =>
      have hne := q.links_concat_ne_nil mem joins
      rw [if_neg hne, if_neg (List.append_ne_nil_of_right_ne_nil _ hne)]
      omega

/-- At one for every link a walk costs its length. -/
theorem cost_hopCosts (w : Walk t a b) : w.cost hopCosts = w.length := by
  have hfree : ∀ v, nodeCost t hopCosts v = 0 := by
    intro v
    unfold nodeCost
    cases t.node? v <;> rfl
  induction w with
  | nil => rfl
  | concat w l mem joins ih =>
    rw [cost_concat, ih, hfree, ite_self, length, length, links, List.length_append]
    rfl

/-! ## Walks and routes -/

/-- A route pays no more for going on from a node than a walk for coming by it. -/
theorem transitCost_le_nodeCost (t : Topology) (costs : CostModel) (source v : NodeId) :
    transitCost t costs source v ≤ nodeCost t costs v := by
  unfold transitCost
  split
  · exact Nat.zero_le _
  · exact Nat.le_refl _

/-- For every walk there is a route that costs no more. -/
theorem exists_route_le (costs : CostModel) (w : Walk t a b) :
    ∃ k ≤ w.cost costs, Route t costs a b k := by
  induction w with
  | nil => exact ⟨0, Nat.le_refl 0, .start⟩
  | @concat u v w l mem joins ih =>
    obtain ⟨k, hk, hr⟩ := ih
    refine ⟨_, ?_, hr.extend mem joins⟩
    rw [cost_concat]
    by_cases h : w.links = []
    · rw [if_pos h, transitCost, if_pos (w.eq_of_links_eq_nil h).symm]
      omega
    · have := transitCost_le_nodeCost t costs a u
      rw [if_neg h]
      omega

/-- For every route there is a walk that costs no more: it starts where the route leaves
its source for the last time. -/
theorem exists_le_of_route {k : Nat} (h : Route t costs a b k) :
    ∃ w : Walk t a b, w.cost costs ≤ k := by
  induction h with
  | start => exact ⟨.nil, Nat.le_refl 0⟩
  | @extend u v k l _ mem joins ih =>
    by_cases e : a = u
    · subst e
      refine ⟨Walk.nil.concat l mem joins, ?_⟩
      rw [cost_concat, cost_nil, links, if_pos rfl]
      omega
    · obtain ⟨w, hw⟩ := ih
      refine ⟨w.concat l mem joins, ?_⟩
      rw [cost_concat, if_neg fun h => e (w.eq_of_links_eq_nil h), transitCost,
        if_neg (Ne.symm e)]
      exact Nat.add_le_add_right (Nat.add_le_add_right hw _) _

end Walk

/-! ## Least costs -/

variable {t : Topology} {costs : CostModel} {a b : NodeId}

/-- The costs of the walks from one node to another. -/
def walkCosts (t : Topology) (costs : CostModel) (a b : NodeId) : Set Nat :=
  Set.range (Walk.cost costs : Walk t a b → Nat)

variable (t costs a b) in
theorem walkCosts_comm : walkCosts t costs a b = walkCosts t costs b a := by
  have reversed (a b : NodeId) : walkCosts t costs a b ⊆ walkCosts t costs b a := by
    rintro _ ⟨w, rfl⟩
    exact ⟨w.reverse, w.cost_reverse⟩
  exact Set.Subset.antisymm (reversed a b) (reversed b a)

/-- Among the walks between two nodes there is a cheapest one. -/
theorem Walk.exists_isLeast (costs : CostModel) (w : Walk t a b) :
    ∃ c, IsLeast (walkCosts t costs a b) c :=
  ⟨_, Nat.sInf_mem ⟨_, w, rfl⟩, fun _ hc => Nat.sInf_le hc⟩

/-- The cheapest routes cost as much as the cheapest walks. -/
theorem isLeastCost_iff_isLeast {c : Nat} :
    IsLeastCost t costs a b c ↔ IsLeast (walkCosts t costs a b) c := by
  constructor
  · rintro ⟨hroute, hmin⟩
    have below : c ∈ lowerBounds (walkCosts t costs a b) := by
      rintro _ ⟨w, rfl⟩
      obtain ⟨c', hle, hr⟩ := w.exists_route_le costs
      exact Nat.le_trans (hmin c' hr) hle
    obtain ⟨w, hw⟩ := Walk.exists_le_of_route hroute
    exact ⟨⟨w, Nat.le_antisymm hw (below ⟨w, rfl⟩)⟩, below⟩
  · rintro ⟨⟨w, rfl⟩, hmin⟩
    have below : ∀ c', Route t costs a b c' → w.cost costs ≤ c' := by
      intro c' hr
      obtain ⟨w', hle⟩ := Walk.exists_le_of_route hr
      exact Nat.le_trans (hmin ⟨w', rfl⟩) hle
    obtain ⟨c', hle, hr⟩ := w.exists_route_le costs
    exact ⟨Nat.le_antisymm hle (below c' hr) ▸ hr, below⟩

end CoherentMemory.Interconnect
