import CoherentMemory.Proofs.Interconnect.Frontier
import CoherentMemory.Proofs.Interconnect.Route
import CoherentMemory.Proofs.Success

/-!
# The search for least costs

`leastCosts` against `Route`. Between two steps the search has expanded a set of
nodes `done`, at costs up to a `level` that no entry of the frontier is below
(`Search.Invariant`), and every link of an expanded node has been offered to its
other end (`Search.Relaxed`) at a sum that fits in 64 bits (`Search.Summed`). A step
drops an outdated entry or expands a node that was not expanded before
(`Search.Invariant.step`); both make `Search.work` smaller, which the number of steps
covers from the start. So the frontier is empty at the end, and then the costs found are
those of the cheapest routes:

* `isLeastCost_of_leastCosts`: if the search ends with a result, its entries are the
  least costs;
* `leastCosts_total`: it does, as long as the number of nodes times the largest
  costs of a link and a node stays below 2⁶⁴.
-/

namespace CoherentMemory.Interconnect

variable {t : Topology} {costs : CostModel} {source : NodeId}

/-! ## Expanding a node -/

/-- What going on from `v` over the given links offers to their other ends. -/
def offersOver (t : Topology) (costs : CostModel) (source v : NodeId) (cost : Nat)
    (links : List Link) : List (NodeId × Nat) :=
  links.filterMap fun l => (l.other? v).map fun w =>
    (w, cost + transitCost t costs source v + costs.link l)

theorem mem_offersOver {v w : NodeId} {cost x : Nat} {links : List Link} :
    (w, x) ∈ offersOver t costs source v cost links ↔
      ∃ l ∈ links, l.Joins v w ∧ x = cost + transitCost t costs source v + costs.link l := by
  simp only [offersOver, List.mem_filterMap, Option.map_eq_some_iff, Prod.mk.injEq,
    Link.other?_eq_some]
  constructor
  · rintro ⟨l, hl, u, hj, rfl, rfl⟩
    exact ⟨l, hl, hj, rfl⟩
  · rintro ⟨l, hl, hj, rfl⟩
    exact ⟨l, hl, w, hj, rfl, rfl⟩

variable (t costs source) in
theorem length_offersOver_le (v : NodeId) (cost : Nat) (links : List Link) :
    (offersOver t costs source v cost links).length ≤ links.length :=
  List.length_filterMap_le ..

/-- Relaxing links makes their offers, as long as all of them fit in 64 bits. -/
theorem foldlM_relax_eq_ok {v : NodeId} {cost : Nat} {links : List Link} {s s' : Search} :
    links.foldlM (relax t costs source v cost) s = .ok s' ↔
      (∀ o ∈ offersOver t costs source v cost links, o.2 < 0x10000000000000000) ∧
        s.offerAll (offersOver t costs source v cost links) = s' := by
  induction links generalizing s with
  | nil =>
    constructor
    · intro h
      cases h
      exact ⟨List.forall_mem_nil _, rfl⟩
    · rintro ⟨-, rfl⟩
      rfl
  | cons l links ih =>
    rw [List.foldlM_cons]
    cases ho : l.other? v with
    | none =>
      have hr : relax t costs source v cost s l = .ok s := by rw [relax, ho]
      have hl : offersOver t costs source v cost (l :: links) =
          offersOver t costs source v cost links := by
        rw [offersOver, List.filterMap_cons, ho]
        rfl
      rw [hr, hl]
      exact ih
    | some w =>
      have hl : offersOver t costs source v cost (l :: links) =
          (w, cost + transitCost t costs source v + costs.link l) ::
            offersOver t costs source v cost links := by
        rw [offersOver, List.filterMap_cons, ho]
        rfl
      rw [hl, List.forall_mem_cons, Search.offerAll_cons]
      by_cases hx : cost + transitCost t costs source v + costs.link l < 0x10000000000000000
      · have hr : relax t costs source v cost s l =
            .ok (s.offer w (cost + transitCost t costs source v + costs.link l)) := by
          rw [relax, ho]
          simp only [checkedAdd, if_pos hx]
          rfl
        rw [hr]
        exact ih.trans ⟨fun h => ⟨⟨hx, h.1⟩, h.2⟩, fun h => ⟨h.1.2, h.2⟩⟩
      · have hr : relax t costs source v cost s l = .error .addition := by
          rw [relax, ho]
          simp only [checkedAdd, if_neg hx]
          rfl
        rw [hr]
        exact ⟨nofun, fun h => absurd h.1.1 hx⟩

namespace Search

/-- The state after expanding `v` at a cost. -/
def expand (t : Topology) (costs : CostModel) (source : NodeId) (s : Search) (v : NodeId)
    (cost : Nat) : Search :=
  s.offerAll (offersOver t costs source v cost (t.linksOf v))

/-! ## The invariant -/

/-- What holds of a search that has expanded the nodes `done`, the last of them at
the cost `level`. -/
structure Invariant (t : Topology) (costs : CostModel) (source : NodeId) (done : Finset NodeId)
    (level : Nat) (s : Search) : Prop where
  size_eq : s.best.size = t.nodeCount
  source_best : s.bestOf? source = some 0
  /-- Every cost found is that of a route. -/
  route : ∀ {v c}, s.bestOf? v = some c → Route t costs source v c
  /-- A node that was found and not expanded is in the frontier at its cost. -/
  queued : ∀ {v c}, s.bestOf? v = some c → v ∉ done → (c, v) ∈ s.frontier
  /-- Entries are costs that were found, and outdated ones for expanded nodes. -/
  entry : ∀ {v c}, (c, v) ∈ s.frontier → ∃ b, s.bestOf? v = some b ∧ b ≤ c ∧ (v ∈ done → b < c)
  nodup : s.frontier.Nodup
  sorted : s.frontier.Pairwise fun e f => e.1 ≤ f.1
  level_le : ∀ e ∈ s.frontier, level ≤ e.1
  done_le : ∀ v ∈ done, ∃ b, s.bestOf? v = some b ∧ b ≤ level

/-- Going on from `v` over any of its links was offered to the other end. -/
def Relaxed (t : Topology) (costs : CostModel) (source : NodeId) (s : Search) (v : NodeId) : Prop :=
  ∀ b, s.bestOf? v = some b → ∀ l ∈ t.linksOf v, ∀ w, l.Joins v w →
    ∃ c, s.bestOf? w = some c ∧ c ≤ b + transitCost t costs source v + costs.link l

/-- The cost of going on from `v` over any of its links fits in 64 bits. -/
def Summed (t : Topology) (costs : CostModel) (source : NodeId) (s : Search) (v : NodeId) : Prop :=
  ∀ b, s.bestOf? v = some b → ∀ l ∈ t.linksOf v,
    b + transitCost t costs source v + costs.link l < 0x10000000000000000

variable {done : Finset NodeId} {level : Nat} {s : Search}

theorem Invariant.lt_nodeCount (h : s.Invariant t costs source done level) {v : NodeId} {c : Nat}
    (hb : s.bestOf? v = some c) : v < t.nodeCount := by
  rw [← h.size_eq]
  by_contra hn
  rw [bestOf?, Array.getElem?_eq_none (Nat.le_of_not_lt hn)] at hb
  cases hb

variable (costs) in
theorem Invariant.start (h : source < t.nodeCount) :
    (Search.start t.nodeCount source).Invariant t costs source ∅ 0 := by
  have found {v : NodeId} {c : Nat} :
      (Search.start t.nodeCount source).bestOf? v = some c ↔ v = source ∧ c = 0 :=
    join_getElem?_start_iff h
  constructor
  case size_eq => rw [Search.start, Array.size_setIfInBounds, Array.size_replicate]
  case source_best => exact found.mpr ⟨rfl, rfl⟩
  case route =>
    intro v c hv
    obtain ⟨rfl, rfl⟩ := found.mp hv
    exact .start
  case queued =>
    intro v c hv _
    obtain ⟨rfl, rfl⟩ := found.mp hv
    exact List.mem_singleton_self _
  case entry =>
    intro v c hv
    cases List.mem_singleton.mp hv
    exact ⟨0, found.mpr ⟨rfl, rfl⟩, Nat.le_refl 0, fun hd => absurd hd (Finset.notMem_empty _)⟩
  case nodup => exact List.nodup_singleton _
  case sorted => exact List.pairwise_singleton _ _
  case level_le => exact fun e _ => Nat.zero_le _
  case done_le => exact fun v hv => absurd hv (Finset.notMem_empty v)

/-- An offer at no less than the level keeps the invariant. -/
theorem Invariant.offer (h : s.Invariant t costs source done level) {w : NodeId} {x : Nat}
    (hr : Route t costs source w x) (hx : level ≤ x) :
    (s.offer w x).Invariant t costs source done level := by
  by_cases hi : s.improves w x = true
  swap
  · have e : s.offer w x = s := by rw [Search.offer, if_neg hi]
    rw [e]
    exact h
  obtain ⟨hw, hlt⟩ := improves_iff.mp hi
  have hf : (s.offer w x).frontier = enqueue (x, w) s.frontier := by rw [frontier_offer, if_pos hi]
  have hself : (s.offer w x).bestOf? w = some x := by rw [bestOf?_offer, if_pos ⟨hi, rfl⟩]
  have hother {v : NodeId} (hv : w ≠ v) : (s.offer w x).bestOf? v = s.bestOf? v := by
    rw [bestOf?_offer, if_neg fun c => hv c.2]
  -- An expanded node was found at a cost up to the level, which no offer improves.
  have hnd : w ∉ done := by
    intro hd
    obtain ⟨b, hb, hle⟩ := h.done_le w hd
    exact absurd (hlt b hb) (by omega)
  constructor
  case size_eq =>
    rw [size_offer]
    exact h.size_eq
  case source_best =>
    rw [hother, h.source_best]
    rintro rfl
    exact absurd (hlt 0 h.source_best) (Nat.not_lt_zero x)
  case route =>
    intro v c hc
    by_cases e : w = v
    · subst e
      rw [hself] at hc
      cases hc
      exact hr
    · rw [hother e] at hc
      exact h.route hc
  case queued =>
    intro v c hc hd
    rw [hf]
    by_cases e : w = v
    · subst e
      rw [hself] at hc
      cases hc
      exact mem_enqueue.mpr (.inl rfl)
    · rw [hother e] at hc
      exact mem_enqueue.mpr (.inr (h.queued hc hd))
  case entry =>
    intro v c hc
    rw [hf] at hc
    rcases mem_enqueue.mp hc with e | hc
    · cases e
      exact ⟨x, hself, Nat.le_refl x, fun hd => absurd hd hnd⟩
    · obtain ⟨b, hb, hle, hout⟩ := h.entry hc
      by_cases e : w = v
      · subst e
        have := hlt b hb
        exact ⟨x, hself, by omega, fun hd => absurd hd hnd⟩
      · exact ⟨b, by rw [hother e, hb], hle, hout⟩
  case nodup =>
    rw [hf]
    refine nodup_enqueue h.nodup fun hm => ?_
    obtain ⟨b, hb, hle, -⟩ := h.entry hm
    exact absurd (hlt b hb) (by omega)
  case sorted =>
    rw [hf]
    exact sorted_enqueue h.sorted
  case level_le =>
    intro e he
    rw [hf] at he
    rcases mem_enqueue.mp he with rfl | he
    · exact hx
    · exact h.level_le e he
  case done_le =>
    intro v hv
    rw [hother (fun e => hnd (e ▸ hv))]
    exact h.done_le v hv

theorem Invariant.offerAll (h : s.Invariant t costs source done level)
    {offers : List (NodeId × Nat)}
    (ho : ∀ o ∈ offers, Route t costs source o.1 o.2 ∧ level ≤ o.2) :
    (s.offerAll offers).Invariant t costs source done level := by
  induction offers generalizing s with
  | nil => exact h
  | cons o offers ih =>
    obtain ⟨hr, hx⟩ := ho o (List.mem_cons_self ..)
    exact ih (h.offer hr hx) fun p hp => ho p (List.mem_cons_of_mem _ hp)

/-- Offers at no less than the level keep expanded nodes relaxed. -/
theorem Relaxed.offerAll (h : s.Invariant t costs source done level) {v : NodeId} (hv : v ∈ done)
    (hr : s.Relaxed t costs source v) {offers : List (NodeId × Nat)}
    (ho : ∀ o ∈ offers, level ≤ o.2) : (s.offerAll offers).Relaxed t costs source v := by
  intro b hb l hl w hj
  obtain ⟨b₀, hb₀, hle₀⟩ := h.done_le v hv
  have hkeep := bestOf?_offerAll_of_le hb₀ fun o h => Nat.le_trans hle₀ (ho o h)
  have e : b₀ = b := Option.some.inj (hkeep.symm.trans hb)
  obtain ⟨c, hc, hle⟩ := hr b (e ▸ hb₀) l hl w hj
  obtain ⟨c', hc', hle'⟩ := bestOf?_offerAll_le hc offers
  exact ⟨c', hc', Nat.le_trans hle' hle⟩

/-- Offers at no less than the level leave the cost of an expanded node. -/
theorem Summed.offerAll (h : s.Invariant t costs source done level) {v : NodeId} (hv : v ∈ done)
    (hs : s.Summed t costs source v) {offers : List (NodeId × Nat)}
    (ho : ∀ o ∈ offers, level ≤ o.2) : (s.offerAll offers).Summed t costs source v := by
  intro b hb
  obtain ⟨b₀, hb₀, hle₀⟩ := h.done_le v hv
  have hkeep := bestOf?_offerAll_of_le hb₀ fun o h => Nat.le_trans hle₀ (ho o h)
  have e : b₀ = b := Option.some.inj (hkeep.symm.trans hb)
  exact hs b (e ▸ hb₀)

/-! ## Steps -/

variable {v : NodeId} {c : Nat} {rest : List Entry}

/-- The first entry comes once, and no other is below it. -/
theorem Invariant.of_cons (h : s.Invariant t costs source done level)
    (hf : s.frontier = (c, v) :: rest) :
    level ≤ c ∧ (c, v) ∉ rest ∧ rest.Nodup ∧ (rest.Pairwise fun e f => e.1 ≤ f.1) ∧
      ∀ e ∈ rest, e ∈ s.frontier ∧ c ≤ e.1 := by
  have hs := h.sorted
  have hn := h.nodup
  have hle := h.level_le (c, v) (by rw [hf]; exact List.mem_cons_self ..)
  rw [hf] at hs hn ⊢
  rw [List.pairwise_cons] at hs
  rw [List.nodup_cons] at hn
  exact ⟨hle, hn.1, hn.2, hs.2, fun e he => ⟨List.mem_cons_of_mem _ he, hs.1 e he⟩⟩

/-- Dropping an outdated entry keeps the invariant. -/
theorem Invariant.drop (h : s.Invariant t costs source done level)
    (hf : s.frontier = (c, v) :: rest) {b : Nat} (hb : s.bestOf? v = some b) (hlt : b < c) :
    (Search.mk s.best rest).Invariant t costs source done c := by
  obtain ⟨hlevel, -, hnodup, hsorted, hrest⟩ := h.of_cons hf
  constructor
  case size_eq => exact h.size_eq
  case source_best => exact h.source_best
  case route => exact h.route
  case queued =>
    intro u b' hb' hd
    have hq := h.queued hb' hd
    rw [hf] at hq
    rcases List.mem_cons.mp hq with e | hq
    · cases e
      exact absurd (Option.some.inj (hb.symm.trans hb')) (Nat.ne_of_lt hlt)
    · exact hq
  case entry => exact fun he => h.entry (hrest _ he).1
  case nodup => exact hnodup
  case sorted => exact hsorted
  case level_le => exact fun e he => (hrest e he).2
  case done_le =>
    intro u hu
    obtain ⟨b', hb', hle⟩ := h.done_le u hu
    exact ⟨b', hb', Nat.le_trans hle hlevel⟩

/-- An entry that is not outdated is for a node that was not expanded. -/
theorem Invariant.notMem_done (h : s.Invariant t costs source done level)
    (hf : s.frontier = (c, v) :: rest) (hb : s.bestOf? v = some c) : v ∉ done := by
  intro hd
  obtain ⟨b, hb', -, hout⟩ := h.entry (v := v) (c := c) (by rw [hf]; exact List.mem_cons_self ..)
  have e : c = b := Option.some.inj (hb.symm.trans hb')
  exact absurd (hout hd) (by omega)

/-- Taking an entry that is not outdated off the frontier makes its node expanded. -/
theorem Invariant.take (h : s.Invariant t costs source done level)
    (hf : s.frontier = (c, v) :: rest) (hb : s.bestOf? v = some c) :
    (Search.mk s.best rest).Invariant t costs source (insert v done) c := by
  obtain ⟨hlevel, honce, hnodup, hsorted, hrest⟩ := h.of_cons hf
  constructor
  case size_eq => exact h.size_eq
  case source_best => exact h.source_best
  case route => exact h.route
  case queued =>
    intro u b hu hd
    have hq := h.queued hu fun hd' => hd (Finset.mem_insert_of_mem hd')
    rw [hf] at hq
    rcases List.mem_cons.mp hq with e | hq
    · cases e
      exact absurd (Finset.mem_insert_self ..) hd
    · exact hq
  case entry =>
    intro u c' hu
    obtain ⟨b, hb', hle, hout⟩ := h.entry (hrest _ hu).1
    refine ⟨b, hb', hle, fun hd => ?_⟩
    rcases Finset.mem_insert.mp hd with rfl | hd
    · -- the same entry does not come twice
      have e : c = b := Option.some.inj (hb.symm.trans hb')
      have hne : c ≠ c' := by
        rintro rfl
        exact honce hu
      omega
    · exact hout hd
  case nodup => exact hnodup
  case sorted => exact hsorted
  case level_le => exact fun e he => (hrest e he).2
  case done_le =>
    intro u hu
    rcases Finset.mem_insert.mp hu with rfl | hu
    · exact ⟨c, hb, Nat.le_refl c⟩
    · obtain ⟨b, hb', hle⟩ := h.done_le u hu
      exact ⟨b, hb', Nat.le_trans hle hlevel⟩

/-- Everything that an expansion offers is the cost of a route, at no less than
the cost of the node. -/
theorem Invariant.route_offersOver (h : s.Invariant t costs source done level)
    (hb : s.bestOf? v = some c) :
    ∀ o ∈ offersOver t costs source v c (t.linksOf v), Route t costs source o.1 o.2 ∧ c ≤ o.2 := by
  rintro ⟨w, x⟩ ho
  obtain ⟨l, hl, hj, rfl⟩ := mem_offersOver.mp ho
  refine ⟨.extend (h.route hb) (mem_linksOf.mp hl).2.1 hj, ?_⟩
  rw [Nat.add_assoc]
  exact Nat.le_add_right ..

/-- An expanded node is relaxed. -/
theorem Invariant.relaxed_expand (hr : t.LinksInRange) (h : s.Invariant t costs source done level)
    (hb : s.bestOf? v = some c) : (s.expand t costs source v c).Relaxed t costs source v := by
  have ho := h.route_offersOver hb
  intro b hb' l hl w hj
  have e : c = b := Option.some.inj
    ((bestOf?_offerAll_of_le hb fun o h => (ho o h).2).symm.trans hb')
  subst e
  have hw : w < s.best.size := by
    rw [h.size_eq]
    exact hr.lt_of_joins (mem_linksOf.mp hl).2.1 hj
  exact bestOf?_offerAll_of_mem (mem_offersOver.mpr ⟨l, hl, hj, rfl⟩) hw

/-- A step takes the first entry off the frontier: it drops it if it is outdated,
and otherwise expands a node that was not expanded before. -/
theorem Invariant.step (hr : t.LinksInRange) (h : s.Invariant t costs source done level)
    (hc : ∀ u ∈ done, s.Relaxed t costs source u) (hf : s.frontier = (c, v) :: rest) {s' : Search}
    (hs : step t costs source s = .ok s') :
    ((∃ b, s.bestOf? v = some b ∧ b < c) ∧ s' = ⟨s.best, rest⟩ ∧
      s'.Invariant t costs source done c ∧ ∀ u ∈ done, s'.Relaxed t costs source u) ∨
    (v ∉ done ∧ s.bestOf? v = some c ∧ s' = (Search.mk s.best rest).expand t costs source v c ∧
      s'.Invariant t costs source (insert v done) c ∧
        ∀ u ∈ insert v done, s'.Relaxed t costs source u) := by
  obtain ⟨b, hb, hle, -⟩ := h.entry (v := v) (c := c) (by rw [hf]; exact List.mem_cons_self ..)
  have ha : (s.bestOf? v).any (· < c) = decide (b < c) := by rw [hb, Option.any_some]
  simp only [Interconnect.step, hf, ha, decide_eq_true_eq] at hs
  by_cases hlt : b < c
  · rw [if_pos hlt] at hs
    cases hs
    exact .inl ⟨⟨b, hb, hlt⟩, rfl, h.drop hf hb hlt, hc⟩
  · rw [if_neg hlt] at hs
    have e : b = c := by omega
    subst e
    obtain ⟨-, rfl⟩ := foldlM_relax_eq_ok.mp hs
    have ht := h.take hf hb
    have ho := ht.route_offersOver hb
    refine .inr ⟨h.notMem_done hf hb, hb, rfl, ht.offerAll ho, fun u hu => ?_⟩
    rcases Finset.mem_insert.mp hu with rfl | hd
    · exact ht.relaxed_expand hr hb
    · exact Relaxed.offerAll ht hu (hc u hd) fun o h => (ho o h).2

/-- A step that expands a node adds up the costs of going on over all of its links. -/
theorem Invariant.summed_expand (h : s.Invariant t costs source done level)
    (hf : s.frontier = (c, v) :: rest) (hb : s.bestOf? v = some c) {s' : Search}
    (hs : Interconnect.step t costs source s = .ok s') :
    ((Search.mk s.best rest).expand t costs source v c).Summed t costs source v := by
  have ha : (s.bestOf? v).any (· < c) = false := by
    rw [hb, Option.any_some]
    exact decide_eq_false (Nat.lt_irrefl c)
  simp only [Interconnect.step, hf, ha, Bool.false_eq_true, if_false] at hs
  have hv : (Search.mk s.best rest).bestOf? v = some c := hb
  have ho := (h.take hf hb).route_offersOver hv
  intro b hb' l hl
  have e : c = b := Option.some.inj
    ((bestOf?_offerAll_of_le hv fun o h => (ho o h).2).symm.trans hb')
  subst e
  obtain ⟨w, hj⟩ := exists_joins_of_mem_linksOf hl
  exact (foldlM_relax_eq_ok.mp hs).1 _ (mem_offersOver.mpr ⟨l, hl, hj, rfl⟩)

/-! ## Runs -/

/-- What a search has still to look at: the entries of its frontier and the links
of the nodes that were not expanded. -/
def work (t : Topology) (done : Finset NodeId) (s : Search) : Nat :=
  s.frontier.length + ∑ v ∈ Finset.range t.nodeCount \ done, (t.linksOf v).length

theorem work_start_lt : (start t.nodeCount source).work t ∅ < stepBound t := by
  have h := sum_length_linksOf_le t
  rw [work, Finset.sdiff_empty, Search.start, List.length_singleton, stepBound]
  omega

variable (costs source) in
theorem work_expand_lt (hf : s.frontier = (c, v) :: rest) (hv : v < t.nodeCount) (hd : v ∉ done) :
    ((Search.mk s.best rest).expand t costs source v c).work t (insert v done) < s.work t done := by
  have hl := length_frontier_offerAll_le (Search.mk s.best rest)
    (offersOver t costs source v c (t.linksOf v))
  have ho := length_offersOver_le t costs source v c (t.linksOf v)
  have hsum := Finset.sum_erase_add (Finset.range t.nodeCount \ done)
    (fun u => (t.linksOf u).length) (Finset.mem_sdiff.mpr ⟨Finset.mem_range.mpr hv, hd⟩)
  rw [work, work, Finset.sdiff_insert, hf, List.length_cons]
  simp only [expand] at hl ⊢
  omega

variable (t done) in
theorem work_drop_lt (hf : s.frontier = (c, v) :: rest) :
    (Search.mk s.best rest).work t done < s.work t done := by
  rw [work, work, hf, List.length_cons]
  exact Nat.add_lt_add_right (Nat.lt_succ_self _) _

variable (t costs source) in
theorem run_of_nil (hf : s.frontier = []) (fuel : Nat) :
    Interconnect.run t costs source fuel s = .ok s := by
  cases fuel with
  | zero => rfl
  | succ fuel =>
    rw [Interconnect.run, hf]
    rfl

variable (t costs source) in
theorem run_of_cons (hf : s.frontier = (c, v) :: rest) (fuel : Nat) :
    Interconnect.run t costs source (fuel + 1) s =
      (Interconnect.step t costs source s).bind (Interconnect.run t costs source fuel) := by
  rw [Interconnect.run, hf]
  rfl

/-- A run that is long enough for the work ends with an empty frontier. -/
theorem Invariant.run (hr : t.LinksInRange) {fuel : Nat} {done : Finset NodeId} {level : Nat}
    {s s' : Search} (h : s.Invariant t costs source done level)
    (hc : ∀ u ∈ done, s.Relaxed t costs source u) (hsum : ∀ u ∈ done, s.Summed t costs source u)
    (hw : s.work t done ≤ fuel) (hs : Interconnect.run t costs source fuel s = .ok s') :
    ∃ done' level', s'.Invariant t costs source done' level' ∧
      (∀ u ∈ done', s'.Relaxed t costs source u) ∧
        (∀ u ∈ done', s'.Summed t costs source u) ∧ s'.frontier = [] := by
  induction fuel generalizing done level s with
  | zero =>
    cases hs
    refine ⟨done, level, h, hc, hsum, List.length_eq_zero_iff.mp ?_⟩
    rw [work] at hw
    omega
  | succ fuel ih =>
    cases hf : s.frontier with
    | nil =>
      rw [run_of_nil t costs source hf] at hs
      cases hs
      exact ⟨done, level, h, hc, hsum, hf⟩
    | cons e rest =>
      obtain ⟨c, v⟩ := e
      rw [run_of_cons t costs source hf] at hs
      obtain ⟨s₁, hst, hs⟩ := bind_eq_ok.mp hs
      rcases h.step hr hc hf hst with ⟨-, rfl, h₁, hc₁⟩ | ⟨hd, hb, rfl, h₁, hc₁⟩
      · have := work_drop_lt t done hf
        exact ih h₁ hc₁ hsum (by omega) hs
      · have := work_expand_lt costs source hf (h.lt_nodeCount hb) hd
        have ht := h.take hf hb
        refine ih h₁ hc₁ (fun u hu => ?_) (by omega) hs
        rcases Finset.mem_insert.mp hu with rfl | hud
        · exact h.summed_expand hf hb hst
        · exact Summed.offerAll ht hu (hsum u hud) fun o ho => (ht.route_offersOver hb o ho).2

/-- At the end no route is cheaper than what was found. -/
theorem Invariant.bestOf?_le (h : s.Invariant t costs source done level)
    (hc : ∀ u ∈ done, s.Relaxed t costs source u) (hf : s.frontier = []) {w : NodeId} {c : Nat}
    (hr : Route t costs source w c) : ∃ b, s.bestOf? w = some b ∧ b ≤ c := by
  induction hr with
  | start => exact ⟨0, h.source_best, Nat.le_refl 0⟩
  | @extend u v c l _ hl hj ih =>
    obtain ⟨b, hb, hle⟩ := ih
    have hd : u ∈ done := by
      by_contra hd
      have hq := h.queued hb hd
      rw [hf] at hq
      cases hq
    have hmem : l ∈ t.linksOf u := mem_linksOf.mpr ⟨h.lt_nodeCount hb, hl, hj.imp And.left And.left⟩
    obtain ⟨b', hb', hle'⟩ := hc u hd b hb l hmem v hj
    exact ⟨b', hb', by omega⟩

/-! ## Sums within 64 bits -/

/-- Every cost found is at most `bound` for each expanded node. -/
def Bounded (bound : Nat) (done : Finset NodeId) (s : Search) : Prop :=
  ∀ v c, s.bestOf? v = some c → c ≤ done.card * bound

theorem Invariant.card_lt (h : s.Invariant t costs source done level) (hb : s.bestOf? v = some c)
    (hd : v ∉ done) : done.card + 1 ≤ t.nodeCount := by
  have hsub : insert v done ⊆ Finset.range t.nodeCount := by
    intro u hu
    rw [Finset.mem_range]
    rcases Finset.mem_insert.mp hu with rfl | hu
    · exact h.lt_nodeCount hb
    · obtain ⟨b, hb', -⟩ := h.done_le u hu
      exact h.lt_nodeCount hb'
  have hle := Finset.card_le_card hsub
  rwa [Finset.card_insert_of_notMem hd, Finset.card_range] at hle

variable {linkBound nodeBound : Nat}

variable (source) in
theorem transitCost_le (hn : ∀ n ∈ t.nodes, costs.node n ≤ nodeBound) (v : NodeId) :
    transitCost t costs source v ≤ nodeBound := by
  unfold transitCost
  split
  · exact Nat.zero_le _
  · cases hv : t.node? v with
    | none => exact Nat.zero_le _
    | some n => exact hn n (Array.mem_of_getElem? hv)

theorem offersOver_le (hl : ∀ l ∈ t.links, costs.link l ≤ linkBound)
    (hn : ∀ n ∈ t.nodes, costs.node n ≤ nodeBound) :
    ∀ o ∈ offersOver t costs source v c (t.linksOf v), o.2 ≤ c + (linkBound + nodeBound) := by
  rintro ⟨w, x⟩ ho
  obtain ⟨l, hmem, -, rfl⟩ := mem_offersOver.mp ho
  have h₁ := hl l (mem_linksOf.mp hmem).2.1
  have h₂ := transitCost_le source hn v
  show c + transitCost t costs source v + costs.link l ≤ _
  omega

/-- Expanding one more node keeps the costs found below the bound. -/
theorem Bounded.expand (hl : ∀ l ∈ t.links, costs.link l ≤ linkBound)
    (hn : ∀ n ∈ t.nodes, costs.node n ≤ nodeBound) (h : s.Bounded (linkBound + nodeBound) done)
    (hb : s.bestOf? v = some c) (hd : v ∉ done) :
    ((Search.mk s.best rest).expand t costs source v c).Bounded (linkBound + nodeBound)
      (insert v done) := by
  intro w x hx
  have hc := h v c hb
  rw [Finset.card_insert_of_notMem hd, Nat.succ_mul]
  rcases bestOf?_offerAll_eq hx with hold | hnew
  · exact Nat.le_trans (h w x hold) (Nat.le_add_right ..)
  · exact Nat.le_trans (offersOver_le hl hn _ hnew) (Nat.add_le_add_right hc _)

/-- As long as the bound for all nodes fits in 64 bits, so does every offer of a step. -/
theorem Invariant.step_total (hl : ∀ l ∈ t.links, costs.link l ≤ linkBound)
    (hn : ∀ n ∈ t.nodes, costs.node n ≤ nodeBound)
    (hN : t.nodeCount * (linkBound + nodeBound) < 0x10000000000000000)
    (h : s.Invariant t costs source done level) (hB : s.Bounded (linkBound + nodeBound) done)
    (hf : s.frontier = (c, v) :: rest) : ∃ s', Interconnect.step t costs source s = .ok s' := by
  obtain ⟨b, hb, hle, -⟩ := h.entry (v := v) (c := c) (by rw [hf]; exact List.mem_cons_self ..)
  simp only [Interconnect.step, hf]
  split
  · exact ⟨_, rfl⟩
  · rename_i hcond
    have e : b = c := by
      rw [hb, Option.any_some, decide_eq_true_eq] at hcond
      omega
    subst e
    refine ⟨_, foldlM_relax_eq_ok.mpr ⟨fun o ho => ?_, rfl⟩⟩
    have hc := hB v b hb
    have hcard := Nat.mul_le_mul_right (linkBound + nodeBound)
      (h.card_lt hb (h.notMem_done hf hb))
    rw [Nat.succ_mul] at hcard
    have ho' := offersOver_le hl hn o ho
    omega

theorem Invariant.run_total (hr : t.LinksInRange) (hl : ∀ l ∈ t.links, costs.link l ≤ linkBound)
    (hn : ∀ n ∈ t.nodes, costs.node n ≤ nodeBound)
    (hN : t.nodeCount * (linkBound + nodeBound) < 0x10000000000000000) (fuel : Nat)
    {done : Finset NodeId} {level : Nat} {s : Search} (h : s.Invariant t costs source done level)
    (hc : ∀ u ∈ done, s.Relaxed t costs source u) (hB : s.Bounded (linkBound + nodeBound) done) :
    ∃ s', Interconnect.run t costs source fuel s = .ok s' := by
  induction fuel generalizing done level s with
  | zero => exact ⟨s, rfl⟩
  | succ fuel ih =>
    cases hf : s.frontier with
    | nil => exact ⟨s, run_of_nil t costs source hf _⟩
    | cons e rest =>
      obtain ⟨c, v⟩ := e
      obtain ⟨s₁, hst⟩ := h.step_total hl hn hN hB hf
      rw [run_of_cons t costs source hf, hst]
      rcases h.step hr hc hf hst with ⟨-, rfl, h₁, hc₁⟩ | ⟨hd, hb, rfl, h₁, hc₁⟩
      · exact ih h₁ hc₁ hB
      · exact ih h₁ hc₁ (hB.expand hl hn hb hd)

end Search

/-! ## Least costs -/

/-- A search that has a result ends with nothing left in its frontier. -/
theorem final_of_leastCosts (hr : t.LinksInRange) (hs : source < t.nodeCount)
    {best : Array (Option Nat)} (h : leastCosts t costs source = .ok best) :
    ∃ (s : Search) (done : Finset NodeId) (level : Nat), s.best = best ∧
      s.Invariant t costs source done level ∧ (∀ u ∈ done, s.Relaxed t costs source u) ∧
        (∀ u ∈ done, s.Summed t costs source u) ∧ s.frontier = [] := by
  rw [leastCosts, if_pos hs] at h
  cases hrun : search t costs source with
  | error o =>
    rw [hrun] at h
    cases h
  | ok s =>
    rw [hrun] at h
    cases h
    obtain ⟨done, level, hinv, hc, hsum, hf⟩ := (Search.Invariant.start costs hs).run hr
      (fun u hu => absurd hu (Finset.notMem_empty u))
      (fun u hu => absurd hu (Finset.notMem_empty u)) (Nat.le_of_lt Search.work_start_lt) hrun
    exact ⟨s, done, level, rfl, hinv, hc, hsum, hf⟩

theorem isLeastCost_of_leastCosts (hr : t.LinksInRange) (hs : source < t.nodeCount)
    {best : Array (Option Nat)} (h : leastCosts t costs source = .ok best) :
    best.size = t.nodeCount ∧
      ∀ v c, best[v]?.join = some c ↔ IsLeastCost t costs source v c := by
  obtain ⟨s, done, level, rfl, hinv, hc, -, hf⟩ := final_of_leastCosts hr hs h
  refine ⟨hinv.size_eq, fun v c => ?_⟩
  show s.bestOf? v = some c ↔ _
  constructor
  · intro hb
    refine ⟨hinv.route hb, fun c' hc' => ?_⟩
    obtain ⟨b, hb', hle⟩ := hinv.bestOf?_le hc hf hc'
    have e : c = b := Option.some.inj (hb.symm.trans hb')
    exact e ▸ hle
  · rintro ⟨hroute, hmin⟩
    obtain ⟨b, hb, hle⟩ := hinv.bestOf?_le hc hf hroute
    have e : b = c := Nat.le_antisymm hle (hmin b (hinv.route hb))
    exact e ▸ hb

variable (source) in
/-- The search has a result as long as the costs along all nodes fit in 64 bits. -/
theorem leastCosts_total (hr : t.LinksInRange) {linkBound nodeBound : Nat}
    (hl : ∀ l ∈ t.links, costs.link l ≤ linkBound) (hn : ∀ n ∈ t.nodes, costs.node n ≤ nodeBound)
    (hN : t.nodeCount * (linkBound + nodeBound) < 0x10000000000000000) :
    ∃ best, leastCosts t costs source = .ok best := by
  unfold leastCosts
  by_cases hs : source < t.nodeCount
  · have hB : (Search.start t.nodeCount source).Bounded (linkBound + nodeBound) ∅ := by
      intro v c hb
      have hstart := Search.Invariant.start costs hs
      by_cases e : v = source
      · subst e
        rw [hstart.source_best] at hb
        cases hb
        exact Nat.zero_le _
      · have hq := hstart.queued hb (Finset.notMem_empty v)
        cases List.mem_singleton.mp hq
        exact absurd rfl e
    obtain ⟨s, hrun⟩ := (Search.Invariant.start costs hs).run_total hr hl hn hN (stepBound t)
      (fun u hu => absurd hu (Finset.notMem_empty u)) hB
    rw [if_pos hs, search, hrun]
    exact ⟨s.best, rfl⟩
  · rw [if_neg hs]
    exact ⟨_, rfl⟩

end CoherentMemory.Interconnect
