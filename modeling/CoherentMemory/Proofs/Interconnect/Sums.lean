import CoherentMemory.Proofs.Interconnect.Search

/-!
# When the search has a result

The search adds up numbers of 64 bits and ends without a result when a sum leaves them.
The sums that it forms are known without running it: a node is expanded at its least
cost (`Search.Invariant.isLeastCost_head`), so they are the least costs of the nodes
with the costs of going on over their links (`SumsFit`). `exists_leastCosts_iff` says
that the search has a result exactly if all of these fit.
-/

namespace CoherentMemory.Interconnect

variable {t : Topology} {costs : CostModel} {source : NodeId}

/-- Going on from any node at its least cost costs a number of 64 bits. -/
def SumsFit (t : Topology) (costs : CostModel) (source : NodeId) : Prop :=
  ∀ v c, IsLeastCost t costs source v c → ∀ l ∈ t.linksOf v,
    c + transitCost t costs source v + costs.link l < 2 ^ 64

namespace Search

variable {done : Finset NodeId} {level : Nat} {s : Search} {v : NodeId} {c : Nat}
variable {rest : List Entry}

/-- A route ends at an expanded node that was found at no more than its cost, or it
costs no less than the first entry of the frontier. -/
theorem Invariant.done_or_le (h : s.Invariant t costs source done level)
    (hc : ∀ u ∈ done, s.Relaxed t costs source u) (hf : s.frontier = (c, v) :: rest) {w : NodeId}
    {k : Nat} (hr : Route t costs source w k) :
    (w ∈ done ∧ ∃ b, s.bestOf? w = some b ∧ b ≤ k) ∨ c ≤ k := by
  -- a node that was found at `b` and not expanded is in the frontier, where `c` comes first
  have found {w : NodeId} {b k : Nat} (hb : s.bestOf? w = some b) (hle : b ≤ k) :
      (w ∈ done ∧ ∃ b, s.bestOf? w = some b ∧ b ≤ k) ∨ c ≤ k := by
    by_cases hd : w ∈ done
    · exact .inl ⟨hd, b, hb, hle⟩
    · have hq := h.queued hb hd
      have hs := h.sorted
      rw [hf] at hq hs
      rcases List.mem_cons.mp hq with e | hq
      · cases e
        exact .inr hle
      · exact .inr (Nat.le_trans ((List.pairwise_cons.mp hs).1 _ hq) hle)
  induction hr with
  | start => exact found h.source_best (Nat.le_refl 0)
  | @extend u w k l _ hl hj ih =>
    rcases ih with ⟨hd, b, hb, hle⟩ | hle
    · have hmem : l ∈ t.linksOf u :=
        mem_linksOf.mpr ⟨h.lt_nodeCount hb, hl, hj.imp And.left And.left⟩
      obtain ⟨b', hb', hle'⟩ := hc u hd b hb l hmem w hj
      exact found hb' (by omega)
    · right
      omega

/-- A node is expanded at its least cost. -/
theorem Invariant.isLeastCost_head (h : s.Invariant t costs source done level)
    (hc : ∀ u ∈ done, s.Relaxed t costs source u) (hf : s.frontier = (c, v) :: rest)
    (hb : s.bestOf? v = some c) : IsLeastCost t costs source v c := by
  refine ⟨h.route hb, fun k hk => ?_⟩
  rcases h.done_or_le hc hf hk with ⟨hd, -⟩ | hle
  · exact absurd hd (h.notMem_done hf hb)
  · exact hle

/-- Where the sums fit, every step has a result. -/
theorem Invariant.step_of_sumsFit (hsum : SumsFit t costs source)
    (h : s.Invariant t costs source done level) (hc : ∀ u ∈ done, s.Relaxed t costs source u)
    (hf : s.frontier = (c, v) :: rest) : ∃ s', Interconnect.step t costs source s = .ok s' := by
  obtain ⟨b, hb, hle, -⟩ := h.entry (v := v) (c := c) (by rw [hf]; exact List.mem_cons_self ..)
  simp only [Interconnect.step, hf]
  split
  · exact ⟨_, rfl⟩
  · rename_i hcond
    have e : b = c := by
      rw [hb, Option.any_some, decide_eq_true_eq] at hcond
      omega
    subst e
    refine ⟨_, foldlM_relax_eq_ok.mpr ⟨?_, rfl⟩⟩
    rintro ⟨w, x⟩ ho
    obtain ⟨l, hl, -, rfl⟩ := mem_offersOver.mp ho
    exact hsum v b (h.isLeastCost_head hc hf hb) l hl

theorem Invariant.run_of_sumsFit (hr : t.LinksInRange) (hsum : SumsFit t costs source) (fuel : Nat)
    {done : Finset NodeId} {level : Nat} {s : Search} (h : s.Invariant t costs source done level)
    (hc : ∀ u ∈ done, s.Relaxed t costs source u) :
    ∃ s', Interconnect.run t costs source fuel s = .ok s' := by
  induction fuel generalizing done level s with
  | zero => exact ⟨s, rfl⟩
  | succ fuel ih =>
    cases hf : s.frontier with
    | nil => exact ⟨s, run_of_nil t costs source hf _⟩
    | cons e rest =>
      obtain ⟨c, v⟩ := e
      obtain ⟨s₁, hst⟩ := h.step_of_sumsFit hsum hc hf
      rw [run_of_cons t costs source hf, hst]
      rcases h.step hr hc hf hst with ⟨-, rfl, h₁, hc₁⟩ | ⟨-, -, rfl, h₁, hc₁⟩
      · exact ih h₁ hc₁
      · exact ih h₁ hc₁

end Search

theorem leastCosts_of_sumsFit (hr : t.LinksInRange) (hs : source < t.nodeCount)
    (hsum : SumsFit t costs source) : ∃ best, leastCosts t costs source = .ok best := by
  obtain ⟨s, hrun⟩ := (Search.Invariant.start costs hs).run_of_sumsFit hr hsum (stepBound t)
    fun u hu => absurd hu (Finset.notMem_empty u)
  rw [leastCosts, if_pos hs, search, hrun]
  exact ⟨s.best, rfl⟩

theorem sumsFit_of_leastCosts (hr : t.LinksInRange) (hs : source < t.nodeCount)
    {best : Array (Option Nat)} (h : leastCosts t costs source = .ok best) :
    SumsFit t costs source := by
  intro v c hv
  have hbest := ((isLeastCost_of_leastCosts hr hs h).2 v c).mpr hv
  obtain ⟨s, done, level, rfl, hinv, -, hsum, hf⟩ := final_of_leastCosts hr hs h
  have hd : v ∈ done := by
    by_contra hd
    have hq := hinv.queued hbest hd
    rw [hf] at hq
    cases hq
  exact hsum v hd c hbest

/-- The search has a result exactly if the sums that it forms fit in 64 bits. -/
theorem exists_leastCosts_iff (hr : t.LinksInRange) (hs : source < t.nodeCount) :
    (∃ best, leastCosts t costs source = .ok best) ↔ SumsFit t costs source :=
  ⟨fun ⟨_, h⟩ => sumsFit_of_leastCosts hr hs h, leastCosts_of_sumsFit hr hs⟩

end CoherentMemory.Interconnect
