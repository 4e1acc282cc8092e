import CoherentMemory.Proofs.Interconnect.Flood
import CoherentMemory.Proofs.Interconnect.PathCost

/-!
# Hop distances

What `hopDistance` computes, for any topology whose links join nodes: the number of links
of a shortest walk. `hopDistance_isLeast` says so, and that the search for least costs
finds the same numbers when every link costs one. A shortest walk comes by a node at every
smaller distance (`IsLeastCost.exists_of_le`), so that distances stay below the number of
nodes.
-/

namespace CoherentMemory.Interconnect

variable {t : Topology} {source target v : NodeId} {k : Nat}

/-! ## Distances and the number of nodes -/

/-- Where some node is at a distance, there are nodes at all smaller ones. -/
theorem IsLeastCost.exists_of_le (h : IsLeastCost t hopCosts source v k) {j : Nat} (hj : j ≤ k) :
    ∃ u, IsLeastCost t hopCosts source u j := by
  induction k generalizing v with
  | zero => exact ⟨v, Nat.le_zero.mp hj ▸ h⟩
  | succ k ih =>
    by_cases e : j = k + 1
    · exact ⟨v, e ▸ h⟩
    obtain ⟨hroute, hmin⟩ := h
    generalize hlen : k + 1 = n at hroute
    cases hroute with
    | start => cases hlen
    | @extend u v c l hu hl hjoin =>
      rw [transitCost_eq_zero fun _ => rfl] at hlen
      have hc : k = c := Nat.succ.inj hlen
      subst hc
      -- a shorter route to `u` would make one to `v` shorter
      have hleast : IsLeastCost t hopCosts source u k :=
        ⟨hu, fun m hm => Nat.le_of_succ_le_succ (hmin _ (hm.hop hl hjoin))⟩
      exact ih hleast (by omega)

/-- Distances are smaller than the number of nodes. -/
theorem IsLeastCost.hops_lt_nodeCount (hr : t.LinksInRange) (hs : source < t.nodeCount)
    (h : IsLeastCost t hopCosts source v k) : k < t.nodeCount := by
  have hnode : ∀ j, ∃ u, j ≤ k → IsLeastCost t hopCosts source u j := by
    intro j
    by_cases hj : j ≤ k
    · obtain ⟨u, hu⟩ := h.exists_of_le hj
      exact ⟨u, fun _ => hu⟩
    · exact ⟨source, fun hle => absurd hle hj⟩
  choose node hnode using hnode
  have hle {j : Nat} (hj : j ∈ Finset.range (k + 1)) : j ≤ k :=
    Nat.le_of_lt_succ (Finset.mem_range.mp hj)
  have hcard : (Finset.range (k + 1)).card ≤ (Finset.range t.nodeCount).card := by
    refine Finset.card_le_card_of_injOn node (fun j hj => ?_) (fun i hi j hj e => ?_)
    · exact Finset.mem_coe.mpr (Finset.mem_range.mpr ((hnode j (hle hj)).1.lt_nodeCount hr hs))
    · exact (hnode i (hle hi)).unique (e ▸ hnode j (hle hj))
  rwa [Finset.card_range, Finset.card_range] at hcard

/-! ## Shortest walks -/

/-- At one for every link, the costs of walks are their lengths. -/
theorem walkCosts_hopCosts (t : Topology) (a b : NodeId) :
    walkCosts t hopCosts a b = Set.range (Walk.length : Walk t a b → Nat) :=
  congrArg Set.range (funext Walk.cost_hopCosts)

theorem hopDistance_eq_none_of_not (h : ¬ (source < t.nodeCount ∧ target < t.nodeCount)) :
    t.hopDistance source target = none := by
  rw [Topology.hopDistance, if_neg]
  rwa [Bool.and_eq_true, decide_eq_true_eq, decide_eq_true_eq]

theorem hopDistance_eq_some_iff (hr : t.LinksInRange) :
    t.hopDistance source target = some k ↔ source < t.nodeCount ∧ target < t.nodeCount ∧
      IsLeast (Set.range (Walk.length : Walk t source target → Nat)) k := by
  by_cases h : source < t.nodeCount ∧ target < t.nodeCount
  · rw [hopDistance_eq_some hr h.1 h.2, isLeastCost_iff_isLeast, walkCosts_hopCosts]
    exact ⟨fun hk => ⟨h.1, h.2, hk⟩, fun hk => hk.2.2⟩
  · rw [hopDistance_eq_none_of_not h]
    exact ⟨nofun, fun hk => absurd ⟨hk.1, hk.2.1⟩ h⟩

theorem hopDistance_eq_none_iff (hr : t.LinksInRange) :
    t.hopDistance source target = none ↔
      t.nodeCount ≤ source ∨ t.nodeCount ≤ target ∨ IsEmpty (Walk t source target) := by
  constructor
  · intro hnone
    by_contra hn
    simp only [not_or, Nat.not_le, not_isEmpty_iff] at hn
    obtain ⟨hs, ht, ⟨w⟩⟩ := hn
    obtain ⟨k, hk⟩ := w.exists_isLeast hopCosts
    rw [walkCosts_hopCosts] at hk
    rw [(hopDistance_eq_some_iff hr).mpr ⟨hs, ht, hk⟩] at hnone
    cases hnone
  · intro h
    cases hd : t.hopDistance source target with
    | none => rfl
    | some k =>
      obtain ⟨hs, ht, ⟨w, -⟩, -⟩ := (hopDistance_eq_some_iff hr).mp hd
      rcases h with h | h | h
      · exact absurd hs (Nat.not_lt.mpr h)
      · exact absurd ht (Nat.not_lt.mpr h)
      · exact h.elim w

/-- With every link at one the search for least costs has a result, since all of its sums
are numbers of nodes. -/
theorem exists_leastCosts_hopCosts (hr : t.LinksInRange) (hN : t.nodeCount < 2 ^ 64)
    (source : NodeId) : ∃ best, leastCosts t hopCosts source = .ok best := by
  have hlink : ∀ l ∈ t.links, hopCosts.link l ≤ 1 := fun _ _ => Nat.le_refl 1
  have hnode : ∀ n ∈ t.nodes, hopCosts.node n ≤ 0 := fun _ _ => Nat.le_refl 0
  exact leastCosts_total source hr hlink hnode (by omega)

/-- Both searches agree. Where every link costs one, the table of the least costs holds
the hop distances. -/
theorem Tabulates.getElem?_eq_hopDistance {best : Array (Option Nat)}
    (h : Tabulates t hopCosts source best) (hr : t.LinksInRange) (hs : source < t.nodeCount)
    (ht : target < t.nodeCount) : best[target]? = some (t.hopDistance source target) := by
  obtain ⟨e, he, hleast⟩ := h.exists_entry ht
  have hsame : e = t.hopDistance source target := Option.ext fun k => by
    rw [hleast, ← isLeastCost_iff_isLeast, hopDistance_eq_some hr hs ht]
  rw [he, hsame]

/-- The hop distance of two nodes is the number of links of a shortest walk between them;
there is none if a node is out of range or no walk leads to it. Distances are smaller than
the number of nodes, and they are the least costs when every link costs one. -/
theorem hopDistance_isLeast (hr : t.LinksInRange) (source target : NodeId) :
    (t.hopDistance source target = none ↔
      t.nodeCount ≤ source ∨ t.nodeCount ≤ target ∨ IsEmpty (Walk t source target)) ∧
    (∀ k, t.hopDistance source target = some k ↔ source < t.nodeCount ∧ target < t.nodeCount ∧
      IsLeast (Set.range (Walk.length : Walk t source target → Nat)) k) ∧
    (∀ k, t.hopDistance source target = some k → k < t.nodeCount) ∧
    (t.nodeCount < 2 ^ 64 → ∃ best, leastCosts t hopCosts source = .ok best ∧
      (target < t.nodeCount → best[target]? = some (t.hopDistance source target))) := by
  refine ⟨hopDistance_eq_none_iff hr, fun k => hopDistance_eq_some_iff hr, fun k hk => ?_,
    fun hN => ?_⟩
  · obtain ⟨hs, ht, -⟩ := (hopDistance_eq_some_iff hr).mp hk
    exact ((hopDistance_eq_some hr hs ht).mp hk).hops_lt_nodeCount hr hs
  · obtain ⟨best, hbest⟩ := exists_leastCosts_hopCosts hr hN source
    refine ⟨best, hbest, fun ht => ?_⟩
    by_cases hs : source < t.nodeCount
    · exact (tabulates_of_leastCosts hr hbest).getElem?_eq_hopDistance hr hs ht
    · rw [getElem?_leastCosts_of_le (Nat.le_of_not_lt hs) hbest ht,
        hopDistance_eq_none_of_not fun h => hs h.1]

/-- From the first router the fourth is two links away, the fifth out of reach. -/
theorem hopDistance_isLeast_crossroads : crossroads.LinksInRange ∧ crossroads.nodeCount < 2 ^ 64 ∧
    crossroads.hopDistance 0 3 = some 2 ∧
    IsLeast (Set.range (Walk.length : Walk crossroads 0 3 → Nat)) 2 ∧
    (∃ best, leastCosts crossroads hopCosts 0 = .ok best ∧ best[3]? = some (some 2)) ∧
    crossroads.hopDistance 0 4 = none ∧ IsEmpty (Walk crossroads 0 4) := by
  have hr := crossroads_linksInRange
  have hN : crossroads.nodeCount < 2 ^ 64 := by decide
  have hthree : crossroads.hopDistance 0 3 = some 2 := rfl
  have hfour : crossroads.hopDistance 0 4 = none := rfl
  obtain ⟨-, hsome, -, hcosts⟩ := hopDistance_isLeast hr 0 3
  obtain ⟨best, hbest, hentry⟩ := hcosts hN
  have hentry := hentry (by decide)
  rw [hthree] at hentry
  refine ⟨hr, hN, hthree, ((hsome 2).mp hthree).2.2, ⟨best, hbest, hentry⟩, hfour, ?_⟩
  rcases (hopDistance_isLeast hr 0 4).1.mp hfour with h | h | h
  · exact absurd h (by decide)
  · exact absurd h (by decide)
  · exact h

end CoherentMemory.Interconnect
