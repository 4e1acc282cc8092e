import CoherentMemory.Proofs.Interconnect.Sums
import CoherentMemory.Proofs.Interconnect.Walk

/-!
# Path costs

What `leastCosts` computes, for any topology whose links join nodes and for any costs.
Its table has an entry for each node: the least cost of a walk from the source, and none
where no walk leads (`Tabulates`). `leastCosts_isLeast` says so, and when there is a
table at all: the search has a result exactly if the sums that it forms fit in 64 bits.

The cost model treats the two ends of a path differently as the search goes along, the
table does not: `leastCosts_metric` says that costs are the same in both directions, and
that going by some node is never cheaper than the path of least cost.
-/

namespace CoherentMemory.Interconnect

variable {t : Topology} {costs : CostModel} {source : NodeId}

/-- The entries of a table are the least costs of the walks from `source`. -/
structure Tabulates (t : Topology) (costs : CostModel) (source : NodeId)
    (best : Array (Option Nat)) : Prop where
  /-- There is one entry for each node. -/
  size_eq : best.size = t.nodeCount
  some_iff : ∀ {v c}, v < t.nodeCount →
    (best[v]? = some (some c) ↔ IsLeast (walkCosts t costs source v) c)
  none_iff : ∀ {v}, v < t.nodeCount → (best[v]? = some none ↔ IsEmpty (Walk t source v))

/-- A walk from a node out of range stays there. -/
theorem Walk.eq_of_nodeCount_le (hr : t.LinksInRange) {a b : NodeId} (ha : t.nodeCount ≤ a)
    (w : Walk t a b) : a = b := by
  induction w with
  | nil => rfl
  | concat w l mem joins ih =>
    subst ih
    exact absurd (hr.lt_of_joins mem joins.symm) (Nat.not_lt.mpr ha)

/-- From a source out of range the search has nothing to add up. -/
theorem sumsFit_of_nodeCount_le (hr : t.LinksInRange) (hs : t.nodeCount ≤ source) :
    SumsFit t costs source := by
  intro v c hv l hl
  obtain ⟨w, -⟩ := Walk.exists_le_of_route hv.1
  have e := w.eq_of_nodeCount_le hr hs
  subst e
  rw [linksOf_of_le t hs] at hl
  cases hl

theorem exists_leastCosts_iff_sumsFit (hr : t.LinksInRange) :
    (∃ best, leastCosts t costs source = .ok best) ↔ SumsFit t costs source := by
  by_cases hs : source < t.nodeCount
  · exact exists_leastCosts_iff hr hs
  · refine ⟨fun _ => sumsFit_of_nodeCount_le hr (Nat.le_of_not_lt hs), fun _ => ?_⟩
    rw [leastCosts, if_neg hs]
    exact ⟨_, rfl⟩

/-- From a source out of range nothing is reached. -/
theorem getElem?_leastCosts_of_le (hs : t.nodeCount ≤ source) {best : Array (Option Nat)}
    (h : leastCosts t costs source = .ok best) {v : NodeId} (hv : v < t.nodeCount) :
    best[v]? = some none := by
  rw [leastCosts, if_neg (Nat.not_lt.mpr hs)] at h
  cases h
  rw [Array.getElem?_replicate, if_pos hv]

/-- A result of the search is the table of the least costs. -/
theorem tabulates_of_leastCosts (hr : t.LinksInRange) {best : Array (Option Nat)}
    (h : leastCosts t costs source = .ok best) : Tabulates t costs source best := by
  have hsize : best.size = t.nodeCount := by
    by_cases hs : source < t.nodeCount
    · exact (isLeastCost_of_leastCosts hr hs h).1
    · rw [leastCosts, if_neg hs] at h
      cases h
      exact Array.size_replicate
  have hsome {v c : Nat} (hv : v < t.nodeCount) :
      best[v]? = some (some c) ↔ IsLeast (walkCosts t costs source v) c := by
    by_cases hs : source < t.nodeCount
    · rw [← isLeastCost_iff_isLeast, ← (isLeastCost_of_leastCosts hr hs h).2]
      exact Option.join_eq_some_iff.symm
    · have hle := Nat.le_of_not_lt hs
      rw [getElem?_leastCosts_of_le hle h hv]
      refine iff_of_false (by rintro ⟨⟩) fun hc => ?_
      obtain ⟨w, -⟩ := hc.1
      exact absurd (w.eq_of_nodeCount_le hr hle ▸ hv) (Nat.not_lt.mpr hle)
  refine ⟨hsize, hsome, fun {v} hv => ⟨fun hnone => ⟨fun w => ?_⟩, fun hempty => ?_⟩⟩
  · obtain ⟨c, hc⟩ := w.exists_isLeast costs
    rw [(hsome hv).mpr hc] at hnone
    cases hnone
  · have hentry := Array.getElem?_eq_getElem (hsize ▸ hv : v < best.size)
    cases he : best[v] with
    | none => rw [hentry, he]
    | some c =>
      obtain ⟨w, -⟩ := ((hsome hv).mp (he ▸ hentry)).1
      exact hempty.elim w

/-- The search for least costs is exact. It has a result exactly if the sums that it
forms fit in 64 bits, and the result is the table of the least costs of walks, which a
source out of range leaves without entries. -/
theorem leastCosts_isLeast (hr : t.LinksInRange) (costs : CostModel) (source : NodeId) :
    ((∃ best, leastCosts t costs source = .ok best) ↔ SumsFit t costs source) ∧
      ∀ best, leastCosts t costs source = .ok best → Tabulates t costs source best ∧
        (t.nodeCount ≤ source → ∀ v < t.nodeCount, best[v]? = some none) :=
  ⟨exists_leastCosts_iff_sumsFit hr, fun _ h =>
    ⟨tabulates_of_leastCosts hr h, fun hs _ => getElem?_leastCosts_of_le hs h⟩⟩

/-- Five routers, the last without a link. Of the others, the first is linked to the
second at no cost and twice to the third, and the fourth to itself. -/
def crossroads : Topology :=
  .ofLinks .crossbar ((List.range 5).map fun i => ⟨i, .router⟩)
    [⟨0, 1, .internal, 1, 0⟩, ⟨2, 1, .internal, 1, 1⟩, ⟨0, 2, .internal, 1, 9⟩,
      ⟨0, 2, .internal, 1, 7⟩, ⟨2, 3, .internal, 1, 2⟩, ⟨3, 3, .internal, 1, 0⟩] none

/-- Links cost their latencies, the second router five and the others one. -/
def tolls : CostModel where
  node n := if n.id = 1 then 5 else 1
  link l := l.latency.toNat

theorem crossroads_linksInRange : crossroads.LinksInRange := by
  unfold Topology.LinksInRange
  decide

/-- The third router is reached by the second, although there is a link to it. -/
theorem leastCosts_isLeast_crossroads : crossroads.LinksInRange ∧
    leastCosts crossroads tolls 0 = .ok #[some 0, some 0, some 6, some 9, none] ∧
      SumsFit crossroads tolls 0 ∧ IsLeast (walkCosts crossroads tolls 0 2) 6 ∧
        IsLeast (walkCosts crossroads tolls 0 3) 9 ∧ IsEmpty (Walk crossroads 0 4) := by
  have hok : leastCosts crossroads tolls 0 =
    .ok #[some 0, some 0, some 6, some 9, none] := rfl
  obtain ⟨hfit, hbest⟩ := leastCosts_isLeast crossroads_linksInRange tolls 0
  obtain ⟨htable, -⟩ := hbest _ hok
  exact ⟨crossroads_linksInRange, hok, hfit.mp ⟨_, hok⟩, (htable.some_iff (by decide)).mp rfl,
    (htable.some_iff (by decide)).mp rfl, (htable.none_iff (by decide)).mp rfl⟩

/-! ## Both directions, and ways round -/

theorem Tabulates.exists_entry {best : Array (Option Nat)} (h : Tabulates t costs source best)
    {v : NodeId} (hv : v < t.nodeCount) : ∃ e, best[v]? = some e ∧
      ∀ c, e = some c ↔ IsLeast (walkCosts t costs source v) c := by
  have hentry := Array.getElem?_eq_getElem (h.size_eq ▸ hv : v < best.size)
  refine ⟨_, hentry, fun c => ?_⟩
  rw [← h.some_iff hv, hentry, Option.some.injEq]

variable {a b c : NodeId} {A B : Array (Option Nat)}

/-- The entry for one node in the table of another is that of the other in its table. -/
theorem Tabulates.symm (hA : Tabulates t costs a A) (hB : Tabulates t costs b B)
    (ha : a < t.nodeCount) (hb : b < t.nodeCount) : ∃ e, A[b]? = some e ∧ B[a]? = some e := by
  obtain ⟨e, he, hab⟩ := hA.exists_entry hb
  obtain ⟨f, hf, hba⟩ := hB.exists_entry ha
  have hef : e = f := Option.ext fun c => by rw [hab, hba, walkCosts_comm]
  exact ⟨e, he, hef ▸ hf⟩

/-- The way by `b` is among those that the least cost is taken of. -/
theorem Tabulates.triangle (hA : Tabulates t costs a A) (hB : Tabulates t costs b B)
    (hb : b < t.nodeCount) (hc : c < t.nodeCount) {x y : Nat} (hx : A[b]? = some (some x))
    (hy : B[c]? = some (some y)) :
    ∃ z, A[c]? = some (some z) ∧ z ≤ x + nodeCost t costs b + y := by
  obtain ⟨p, rfl⟩ := ((hA.some_iff hb).mp hx).1
  obtain ⟨q, rfl⟩ := ((hB.some_iff hc).mp hy).1
  obtain ⟨z, hz⟩ := (p.append q).exists_isLeast costs
  exact ⟨z, (hA.some_iff hc).mpr hz, Nat.le_trans (hz.2 ⟨_, rfl⟩) (p.cost_append_le q)⟩

/-- Least costs are the same in both directions, and no way round is cheaper: where one
node is reached and another one from there, the least cost to the other is no more than
that of both ways and of the node between them. -/
theorem leastCosts_metric (hr : t.LinksInRange) (ha : a < t.nodeCount) (hb : b < t.nodeCount)
    (hc : c < t.nodeCount) (hfa : SumsFit t costs a) (hfb : SumsFit t costs b) :
    ∃ A B, leastCosts t costs a = .ok A ∧ leastCosts t costs b = .ok B ∧
      (∃ e, A[b]? = some e ∧ B[a]? = some e) ∧
      ∀ x y, A[b]? = some (some x) → B[c]? = some (some y) →
        ∃ z, A[c]? = some (some z) ∧ z ≤ x + nodeCost t costs b + y := by
  obtain ⟨A, hA⟩ := (exists_leastCosts_iff_sumsFit hr).mpr hfa
  obtain ⟨B, hB⟩ := (exists_leastCosts_iff_sumsFit hr).mpr hfb
  have tA := tabulates_of_leastCosts hr hA
  have tB := tabulates_of_leastCosts hr hB
  exact ⟨A, B, hA, hB, tA.symm tB ha hb, fun _ _ hx hy => tA.triangle tB hb hc hx hy⟩

/-- The second router is on the cheapest way from the first to the fourth. -/
theorem leastCosts_metric_crossroads : crossroads.LinksInRange ∧ SumsFit crossroads tolls 0 ∧
    SumsFit crossroads tolls 1 ∧ ∃ A B, leastCosts crossroads tolls 0 = .ok A ∧
      leastCosts crossroads tolls 1 = .ok B ∧ (∃ e, A[1]? = some e ∧ B[0]? = some e) ∧
        A[1]? = some (some 0) ∧ B[3]? = some (some 4) ∧
          ∃ z, A[3]? = some (some z) ∧ z ≤ 0 + nodeCost crossroads tolls 1 + 4 := by
  have hr := crossroads_linksInRange
  have hok₀ : leastCosts crossroads tolls 0 = .ok #[some 0, some 0, some 6, some 9, none] := rfl
  have hok₁ : leastCosts crossroads tolls 1 = .ok #[some 0, some 0, some 1, some 4, none] := rfl
  have hfit₀ := (exists_leastCosts_iff_sumsFit hr).mp ⟨_, hok₀⟩
  have hfit₁ := (exists_leastCosts_iff_sumsFit hr).mp ⟨_, hok₁⟩
  obtain ⟨A, B, hA, hB, hsymm, htriangle⟩ :=
    leastCosts_metric hr (by decide) (by decide) (by decide) hfit₀ hfit₁ (c := 3)
  have eA : #[some 0, some 0, some 6, some 9, none] = A := Except.ok.inj (hok₀.symm.trans hA)
  have eB : #[some 0, some 0, some 1, some 4, none] = B := Except.ok.inj (hok₁.symm.trans hB)
  subst eA eB
  exact ⟨hr, hfit₀, hfit₁, _, _, hA, hB, hsymm, rfl, rfl, htriangle 0 4 rfl rfl⟩

end CoherentMemory.Interconnect
