import CoherentMemory.Proofs.Interconnect.Sums

/-!
# The additions of a search

The states that a search comes by (`Reached`) and the sums that it forms in each of them:
expanding a node at a cost, it adds to this cost that of going on from the node, and to
their sum the cost of each of its links (`Adds`). A step has a result exactly if these sums
fit in 64 bits (`exists_step_iff`).

That they do is no matter of one step, since costs grow along the search. But a node is
expanded at its least cost, so no sum is more than a least cost and one link
(`Reached.sum_lt`), and least costs are bounded by the number of nodes.
-/

namespace CoherentMemory.Interconnect

/-- The states that the search from `source` comes by. -/
inductive Reached (t : Topology) (costs : CostModel) (source : NodeId) : Search → Prop
  | start : source < t.nodeCount → Reached t costs source (.start t.nodeCount source)
  | step {s s' : Search} : Reached t costs source s → Interconnect.step t costs source s = .ok s' →
      Reached t costs source s'

/-- The next step expands `v` at a cost: this is the first entry of the frontier, and it is
not outdated. -/
structure Search.Expands (s : Search) (v : NodeId) (cost : Nat) : Prop where
  head : s.frontier.head? = some (cost, v)
  current : ∀ b, s.bestOf? v = some b → cost ≤ b

/-- The numbers that the next step adds. -/
inductive Adds (t : Topology) (costs : CostModel) (source : NodeId) (s : Search) :
    Nat → Nat → Prop
  | /-- To the cost of a node that of going on from it. -/
    transit {v : NodeId} {cost : Nat} {l : Link} : s.Expands v cost → l ∈ t.linksOf v →
      Adds t costs source s cost (transitCost t costs source v)
  | /-- To both that of a link. -/
    link {v : NodeId} {cost : Nat} {l : Link} : s.Expands v cost → l ∈ t.linksOf v →
      Adds t costs source s (cost + transitCost t costs source v) (costs.link l)

variable {t : Topology} {costs : CostModel} {source : NodeId} {s : Search}

namespace Search

variable {v : NodeId} {cost : Nat} {rest : List Entry}

theorem expands_iff (hf : s.frontier = (cost, v) :: rest) :
    s.Expands v cost ↔ (s.bestOf? v).any (· < cost) = false := by
  constructor
  · intro h
    cases hb : s.bestOf? v with
    | none => rfl
    | some b => exact decide_eq_false (Nat.not_lt.mpr (h.current b hb))
  · intro h
    refine ⟨by rw [hf, List.head?_cons], fun b hb => ?_⟩
    rw [hb, Option.any_some] at h
    exact Nat.le_of_not_lt (of_decide_eq_false h)

theorem Expands.eq_head (h : s.Expands v cost) {w : NodeId} {x : Nat}
    (hf : s.frontier = (x, w) :: rest) : x = cost ∧ w = v := by
  have hh := h.head
  rw [hf, List.head?_cons] at hh
  cases hh
  exact ⟨rfl, rfl⟩

end Search

/-- Only a step that expands a node adds. -/
theorem Adds.expands {a b : Nat} (h : Adds t costs source s a b) :
    ∃ v cost, s.Expands v cost := by
  cases h with
  | transit he _ => exact ⟨_, _, he⟩
  | link he _ => exact ⟨_, _, he⟩

/-- The sums of a step fit if those that come last do. -/
theorem forall_adds_iff {v : NodeId} {cost : Nat} (h : s.Expands v cost) :
    (∀ a b, Adds t costs source s a b → a + b < 2 ^ 64) ↔
      ∀ l ∈ t.linksOf v, cost + transitCost t costs source v + costs.link l < 2 ^ 64 := by
  constructor
  · intro hsums l hl
    exact hsums _ _ (.link h hl)
  · intro hsums a b hadds
    obtain ⟨rest, hf⟩ := List.head?_eq_some_iff.mp h.head
    cases hadds with
    | @transit w x l hw hl =>
      obtain ⟨rfl, rfl⟩ := hw.eq_head hf
      exact Nat.lt_of_le_of_lt (Nat.le_add_right _ _) (hsums l hl)
    | @link w x l hw hl =>
      obtain ⟨rfl, rfl⟩ := hw.eq_head hf
      exact hsums l hl

/-- A step has a result exactly if its sums fit in 64 bits. -/
theorem exists_step_iff : (∃ s', step t costs source s = .ok s') ↔
    ∀ a b, Adds t costs source s a b → a + b < 2 ^ 64 := by
  by_cases he : ∃ v cost, s.Expands v cost
  · obtain ⟨v, cost, he⟩ := he
    obtain ⟨rest, hf⟩ := List.head?_eq_some_iff.mp he.head
    have hstep : step t costs source s =
        (t.linksOf v).foldlM (relax t costs source v cost) ⟨s.best, rest⟩ := by
      simp only [step, hf, (Search.expands_iff hf).mp he, Bool.false_eq_true, if_false]
    simp only [forall_adds_iff he, hstep, foldlM_relax_eq_ok]
    constructor
    · rintro ⟨_, hoffers, -⟩ l hl
      obtain ⟨w, hj⟩ := exists_joins_of_mem_linksOf hl
      exact hoffers _ (mem_offersOver.mpr ⟨l, hl, hj, rfl⟩)
    · intro hsums
      refine ⟨_, ?_, rfl⟩
      rintro ⟨w, x⟩ ho
      obtain ⟨l, hl, -, rfl⟩ := mem_offersOver.mp ho
      exact hsums l hl
  · -- the frontier is empty, or its first entry is outdated
    refine iff_of_true ?_ fun a b h => absurd h.expands he
    cases hf : s.frontier with
    | nil => exact ⟨s, by rw [step, hf]⟩
    | cons e rest =>
      obtain ⟨cost, v⟩ := e
      have hold : (s.bestOf? v).any (· < cost) = true := by
        rw [← Bool.not_eq_false, ← Search.expands_iff hf]
        exact fun h => he ⟨v, cost, h⟩
      exact ⟨⟨s.best, rest⟩, by simp only [step, hf, hold, if_true]⟩

theorem Reached.source_lt (h : Reached t costs source s) : source < t.nodeCount := by
  induction h with
  | start hs => exact hs
  | step _ _ ih => exact ih

/-- The invariant of the search holds of every state that it comes by. -/
theorem Reached.invariant (hr : t.LinksInRange) (h : Reached t costs source s) :
    ∃ done level, s.Invariant t costs source done level ∧
      ∀ u ∈ done, s.Relaxed t costs source u := by
  induction h with
  | start hs =>
    exact ⟨∅, 0, Search.Invariant.start costs hs, fun u hu => absurd hu (Finset.notMem_empty u)⟩
  | @step s s' _ hstep ih =>
    obtain ⟨done, level, hinv, hc⟩ := ih
    cases hf : s.frontier with
    | nil =>
      rw [Interconnect.step, hf] at hstep
      cases hstep
      exact ⟨done, level, hinv, hc⟩
    | cons e rest =>
      obtain ⟨cost, v⟩ := e
      rcases hinv.step hr hc hf hstep with ⟨-, -, h₁, hc₁⟩ | ⟨-, -, -, h₁, hc₁⟩
      · exact ⟨_, _, h₁, hc₁⟩
      · exact ⟨_, _, h₁, hc₁⟩

/-- A node is expanded at its least cost. -/
theorem Reached.isLeastCost (hr : t.LinksInRange) (h : Reached t costs source s) {v : NodeId}
    {cost : Nat} (he : s.Expands v cost) : IsLeastCost t costs source v cost := by
  obtain ⟨done, level, hinv, hc⟩ := h.invariant hr
  obtain ⟨rest, hf⟩ := List.head?_eq_some_iff.mp he.head
  obtain ⟨b, hb, hle, -⟩ := hinv.entry (v := v) (c := cost)
    (by rw [hf]; exact List.mem_cons_self ..)
  have e : b = cost := Nat.le_antisymm hle (he.current b hb)
  exact hinv.isLeastCost_head hc hf (e ▸ hb)

/-- If least costs and one link more fit in 64 bits, so does every sum of the search. -/
theorem Reached.sum_lt (hr : t.LinksInRange) (hfit : SumsFit t costs source)
    (h : Reached t costs source s) {a b : Nat} (hadds : Adds t costs source s a b) :
    a + b < 2 ^ 64 := by
  obtain ⟨v, cost, he⟩ := hadds.expands
  exact (forall_adds_iff he).mpr (hfit v cost (h.isLeastCost hr he)) a b hadds

end CoherentMemory.Interconnect
