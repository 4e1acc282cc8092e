import CoherentMemory.Proofs.Interconnect.Additions
import CoherentMemory.Proofs.Interconnect.PathCost

/-!
# The turns of a search

The loop of the search without a bound on its turns: while the frontier has an entry, a step
(`Loop`). What a turn can do is said once (`Advance`): it takes an entry off that costs no less
than those before it, and either drops it or expands a node that no turn has expanded before,
whose cost stays from then on. Each turn makes `Search.work` smaller, though it may add more
entries than it takes off; that nodes and links may cost nothing does not matter.

`search_settles` puts this together: the loop comes to its end, and it expands every node that
can be reached in exactly one turn, at its least cost.
-/

namespace CoherentMemory.Interconnect

/-- The loop from a state on: the states in which its turns begin, and the one in which no
entry is left. -/
inductive Loop (t : Topology) (costs : CostModel) (source : NodeId) :
    Search → List Search → Search → Prop
  | exit {s : Search} : s.frontier = [] → Loop t costs source s [] s
  | turn {s s' final : Search} {turns : List Search} : s.frontier ≠ [] →
      step t costs source s = .ok s' → Loop t costs source s' turns final →
      Loop t costs source s (s :: turns) final

/-- The entries that turns take off the frontier. -/
def popped (turns : List Search) : List Entry :=
  turns.filterMap (·.frontier.head?)

/-- One turn expands `v`, and no other does. From then on its cost is `c`. -/
def ExpandedOnce (turns : List Search) (final : Search) (v : NodeId) (c : Nat) : Prop :=
  ∃ before s after, turns = before ++ s :: after ∧ s.Expands v c ∧
    (∀ s' ∈ before ++ after, ∀ x, ¬s'.Expands v x) ∧
    ∀ s' ∈ s :: after ++ [final], s'.bestOf? v = some c

/-- How the loop of a search goes. -/
structure Settles (t : Topology) (costs : CostModel) (source : NodeId) (turns : List Search)
    (final : Search) : Prop where
  frontier_eq : final.frontier = []
  length_le : turns.length ≤ 2 * t.linkCount + 1
  leastCosts_eq : leastCosts t costs source = .ok final.best
  /-- Every turn takes one entry off. -/
  length_popped : (popped turns).length = turns.length
  pairwise_popped : (popped turns).Pairwise fun e f => e.1 ≤ f.1
  /-- Every node that can be reached is expanded in one turn, at its least cost. -/
  expandedOnce : ∀ v, Nonempty (Walk t source v) →
    ∃ c, IsLeast (walkCosts t costs source v) c ∧ ExpandedOnce turns final v c
  /-- No others are expanded. -/
  reachable : ∀ s ∈ turns, ∀ v c, s.Expands v c → Nonempty (Walk t source v)

variable {t : Topology} {costs : CostModel} {source : NodeId}

/-! ## One turn -/

namespace Search

variable {s : Search} {done : Finset NodeId} {level c : Nat} {v : NodeId} {rest : List Entry}

/-- A turn that takes an outdated entry off expands nothing. -/
theorem not_expands_of_lt (hf : s.frontier = (c, v) :: rest) {b : Nat} (hb : s.bestOf? v = some b)
    (hlt : b < c) (u : NodeId) (x : Nat) : ¬s.Expands u x := by
  intro he
  obtain ⟨rfl, rfl⟩ := he.eq_head hf
  exact absurd (he.current b hb) (Nat.not_le.mpr hlt)

/-- Any other turn expands the node of its entry. -/
theorem expands_iff_eq (hf : s.frontier = (c, v) :: rest) (hb : s.bestOf? v = some c) {u : NodeId}
    {x : Nat} : s.Expands u x ↔ u = v ∧ x = c := by
  constructor
  · intro he
    obtain ⟨rfl, rfl⟩ := he.eq_head hf
    exact ⟨rfl, rfl⟩
  · rintro ⟨rfl, rfl⟩
    refine ⟨by rw [hf, List.head?_cons], fun b hb' => ?_⟩
    rw [hb] at hb'
    exact Nat.le_of_eq (Option.some.inj hb')

/-- All offers of a turn are at no less than the costs of the expanded nodes, and leave them. -/
theorem Invariant.bestOf?_expand (h : s.Invariant t costs source done level)
    (hf : s.frontier = (c, v) :: rest) (hb : s.bestOf? v = some c) {u : NodeId}
    (hu : u ∈ insert v done) :
    ((Search.mk s.best rest).expand t costs source v c).bestOf? u = s.bestOf? u := by
  have ht := h.take hf hb
  obtain ⟨b, hb', hle⟩ := ht.done_le u hu
  have hkeep := bestOf?_offerAll_of_le hb' fun o ho =>
    Nat.le_trans hle (ht.route_offersOver hb o ho).2
  exact hkeep.trans hb'.symm

end Search

/-- What a turn does that takes an entry at a cost off the frontier, when the nodes `done`
are expanded before it and the nodes `done'` after it. -/
structure Advance (t : Topology) (costs : CostModel) (source : NodeId) (s : Search)
    (done : Finset NodeId) (cost : Nat) (s' : Search) (done' : Finset NodeId) : Prop where
  invariant : s'.Invariant t costs source done' cost
  relaxed : ∀ u ∈ done', s'.Relaxed t costs source u
  head : ∃ v, s.frontier.head? = some (cost, v)
  work_lt : s'.work t done' < s.work t done
  mem_done : ∀ u, u ∈ done' ↔ u ∈ done ∨ ∃ x, s.Expands u x
  /-- Only nodes that were not expanded are, at the cost found for them. -/
  fresh : ∀ u x, s.Expands u x → u ∉ done ∧ s.bestOf? u = some x
  keeps : ∀ u ∈ done', s'.bestOf? u = s.bestOf? u

/-- A turn advances from one state of the invariant to another. -/
theorem exists_advance {s s' : Search} {done : Finset NodeId} {level : Nat} (hr : t.LinksInRange)
    (h : s.Invariant t costs source done level) (hc : ∀ u ∈ done, s.Relaxed t costs source u)
    (hne : s.frontier ≠ []) (hs : step t costs source s = .ok s') :
    ∃ cost done', level ≤ cost ∧ Advance t costs source s done cost s' done' := by
  obtain ⟨⟨c, v⟩, rest, hf⟩ := List.exists_cons_of_ne_nil hne
  have hhead : s.frontier.head? = some (c, v) := by rw [hf, List.head?_cons]
  have hlevel : level ≤ c := h.level_le (c, v) (List.mem_of_mem_head? hhead)
  rcases h.step hr hc hf hs with ⟨⟨b, hb, hlt⟩, rfl, h₁, hc₁⟩ | ⟨hd, hb, rfl, h₁, hc₁⟩
  · have hnot := Search.not_expands_of_lt hf hb hlt
    exact ⟨c, done, hlevel, {
      invariant := h₁
      relaxed := hc₁
      head := ⟨v, hhead⟩
      work_lt := Search.work_drop_lt t done hf
      mem_done := fun u => ⟨.inl, fun hu => hu.resolve_right (not_exists.mpr (hnot u))⟩
      fresh := fun u x he => absurd he (hnot u x)
      keeps := fun u _ => rfl }⟩
  · exact ⟨c, insert v done, hlevel, {
      invariant := h₁
      relaxed := hc₁
      head := ⟨v, hhead⟩
      work_lt := Search.work_expand_lt costs source hf (h.lt_nodeCount hb) hd
      mem_done := by
        intro u
        rw [Finset.mem_insert, or_comm]
        simp only [Search.expands_iff_eq hf hb, exists_and_left, exists_eq, and_true]
      fresh := by
        intro u x hu
        obtain ⟨rfl, rfl⟩ := (Search.expands_iff_eq hf hb).mp hu
        exact ⟨hd, hb⟩
      keeps := fun u => h.bestOf?_expand hf hb }⟩

/-! ## All turns -/

/-- A turn adds the entry that it takes off. -/
theorem popped_cons {s : Search} {turns : List Search} {e : Entry}
    (h : s.frontier.head? = some e) : popped (s :: turns) = e :: popped turns := by
  rw [popped, List.filterMap_cons, h]
  rfl

namespace Loop

variable {s final : Search} {turns : List Search} {done : Finset NodeId} {level : Nat}

theorem frontier_eq (hl : Loop t costs source s turns final) : final.frontier = [] := by
  induction hl with
  | exit hf => exact hf
  | turn _ _ _ ih => exact ih

/-- The bounded search does the same turns, if its bound is no less than their number. -/
theorem run_eq (hl : Loop t costs source s turns final) {fuel : Nat}
    (hfuel : turns.length ≤ fuel) : run t costs source fuel s = .ok final := by
  induction hl generalizing fuel with
  | exit hf => exact Search.run_of_nil t costs source hf fuel
  | turn hne hs _ ih =>
    obtain ⟨⟨c, v⟩, rest, hf⟩ := List.exists_cons_of_ne_nil hne
    cases fuel with
    | zero => exact absurd hfuel (Nat.not_succ_le_zero _)
    | succ fuel =>
      rw [Search.run_of_cons t costs source hf, hs]
      exact ih (Nat.le_of_succ_le_succ hfuel)

theorem length_popped (hl : Loop t costs source s turns final) :
    (popped turns).length = turns.length := by
  induction hl with
  | exit => rfl
  | turn hne _ _ ih =>
    obtain ⟨e, rest, hf⟩ := List.exists_cons_of_ne_nil hne
    rw [popped_cons (by rw [hf, List.head?_cons]), List.length_cons, List.length_cons, ih]

theorem reached (hl : Loop t costs source s turns final) (h : Reached t costs source s) :
    ∀ s' ∈ turns, Reached t costs source s' := by
  induction hl with
  | exit => exact List.forall_mem_nil _
  | turn _ hs _ ih => exact List.forall_mem_cons.mpr ⟨h, ih (.step h hs)⟩

/-- Each turn makes the work smaller. -/
theorem length_le (hr : t.LinksInRange) (hl : Loop t costs source s turns final)
    (h : s.Invariant t costs source done level) (hc : ∀ u ∈ done, s.Relaxed t costs source u) :
    turns.length ≤ s.work t done := by
  induction hl generalizing done level with
  | exit => exact Nat.zero_le _
  | turn hne hs _ ih =>
    obtain ⟨cost, done', -, ha⟩ := exists_advance hr h hc hne hs
    exact Nat.lt_of_le_of_lt (ih ha.invariant ha.relaxed) ha.work_lt

/-- The level of the invariant is below the entries that are still taken off. -/
theorem le_of_mem_popped (hr : t.LinksInRange) (hl : Loop t costs source s turns final)
    (h : s.Invariant t costs source done level) (hc : ∀ u ∈ done, s.Relaxed t costs source u) :
    ∀ e ∈ popped turns, level ≤ e.1 := by
  induction hl generalizing done level with
  | exit => exact List.forall_mem_nil _
  | turn hne hs _ ih =>
    obtain ⟨cost, done', hlevel, ha⟩ := exists_advance hr h hc hne hs
    obtain ⟨v, hhead⟩ := ha.head
    rw [popped_cons hhead, List.forall_mem_cons]
    exact ⟨hlevel, fun e he => Nat.le_trans hlevel (ih ha.invariant ha.relaxed e he)⟩

theorem pairwise_popped (hr : t.LinksInRange) (hl : Loop t costs source s turns final)
    (h : s.Invariant t costs source done level) (hc : ∀ u ∈ done, s.Relaxed t costs source u) :
    (popped turns).Pairwise fun e f => e.1 ≤ f.1 := by
  induction hl generalizing done level with
  | exit => exact List.Pairwise.nil
  | turn hne hs hrest ih =>
    obtain ⟨cost, done', -, ha⟩ := exists_advance hr h hc hne hs
    obtain ⟨v, hhead⟩ := ha.head
    rw [popped_cons hhead, List.pairwise_cons]
    exact ⟨hrest.le_of_mem_popped hr ha.invariant ha.relaxed, ih ha.invariant ha.relaxed⟩

/-- A node that was expanded is not expanded again, and its cost stays. -/
theorem of_mem_done (hr : t.LinksInRange) (hl : Loop t costs source s turns final)
    (h : s.Invariant t costs source done level) (hc : ∀ u ∈ done, s.Relaxed t costs source u)
    {v : NodeId} (hv : v ∈ done) : (∀ s' ∈ turns, ∀ x, ¬s'.Expands v x) ∧
      ∀ s' ∈ turns ++ [final], s'.bestOf? v = s.bestOf? v := by
  induction hl generalizing done level with
  | exit => exact ⟨List.forall_mem_nil _, fun s' hs' => by rw [List.mem_singleton.mp hs']⟩
  | turn hne hs _ ih =>
    obtain ⟨cost, done', -, ha⟩ := exists_advance hr h hc hne hs
    have hv' : v ∈ done' := (ha.mem_done v).mpr (.inl hv)
    obtain ⟨hnot, hkeep⟩ := ih ha.invariant ha.relaxed hv'
    rw [List.cons_append, List.forall_mem_cons, List.forall_mem_cons]
    exact ⟨⟨fun x he => (ha.fresh v x he).1 hv, hnot⟩, rfl,
      fun s' hs' => (hkeep s' hs').trans (ha.keeps v hv')⟩

/-- A node that was not expanded is, if it has a cost at the end. -/
theorem expandedOnce (hr : t.LinksInRange) (hl : Loop t costs source s turns final)
    (h : s.Invariant t costs source done level) (hc : ∀ u ∈ done, s.Relaxed t costs source u)
    {v : NodeId} {c : Nat} (hv : v ∉ done) (hb : final.bestOf? v = some c) :
    ExpandedOnce turns final v c := by
  induction hl generalizing done level with
  | exit hf =>
    have hq := h.queued hb hv
    rw [hf] at hq
    cases hq
  | @turn s s' final turns hne hs hrest ih =>
    obtain ⟨cost, done', -, ha⟩ := exists_advance hr h hc hne hs
    by_cases hv' : v ∈ done'
    · -- this turn expands it, and later ones leave it
      obtain ⟨x, he⟩ := ((ha.mem_done v).mp hv').resolve_left hv
      obtain ⟨hnot, hkeep⟩ := hrest.of_mem_done hr ha.invariant ha.relaxed hv'
      have hx := (ha.fresh v x he).2
      rw [ha.keeps v hv', hx] at hkeep
      have e : x = c := Option.some.inj
        ((hkeep final (List.mem_append_right _ (List.mem_singleton_self _))).symm.trans hb)
      subst e
      exact ⟨[], s, turns, rfl, he, hnot, List.forall_mem_cons.mpr ⟨hx, hkeep⟩⟩
    · obtain ⟨before, s₁, after, rfl, he, hnot, hkeep⟩ := ih ha.invariant ha.relaxed hv' hb
      have hs₁ : ∀ x, ¬s.Expands v x := fun x he => hv' ((ha.mem_done v).mpr (.inr ⟨x, he⟩))
      exact ⟨s :: before, s₁, after, rfl, he, List.forall_mem_cons.mpr ⟨hs₁, hnot⟩, hkeep⟩

end Loop

/-- As the work gets smaller, the loop comes to its end. -/
theorem exists_loop (hr : t.LinksInRange)
    (hfit : ∀ s, Reached t costs source s → ∀ a b, Adds t costs source s a b → a + b < 2 ^ 64)
    {s : Search} (hreached : Reached t costs source s) {done : Finset NodeId} {level : Nat}
    (h : s.Invariant t costs source done level) (hc : ∀ u ∈ done, s.Relaxed t costs source u) :
    ∃ turns final, Loop t costs source s turns final := by
  induction hw : s.work t done using Nat.strongRecOn generalizing s done level with
  | ind n ih =>
    by_cases hne : s.frontier = []
    · exact ⟨[], s, .exit hne⟩
    · obtain ⟨s', hs⟩ := exists_step_iff.mpr (hfit s hreached)
      obtain ⟨cost, done', -, ha⟩ := exists_advance hr h hc hne hs
      obtain ⟨turns, final, hl⟩ :=
        ih _ (hw ▸ ha.work_lt) (.step hreached hs) ha.invariant ha.relaxed rfl
      exact ⟨s :: turns, final, .turn hne hs hl⟩

/-- From its start a loop settles the nodes. -/
theorem Loop.settles (hr : t.LinksInRange) (hs : source < t.nodeCount) {turns : List Search}
    {final : Search} (hl : Loop t costs source (.start t.nodeCount source) turns final) :
    Settles t costs source turns final := by
  have hstart := Search.Invariant.start costs hs
  have hnone : ∀ u ∈ (∅ : Finset NodeId),
      (Search.start t.nodeCount source).Relaxed t costs source u :=
    fun u hu => absurd hu (Finset.notMem_empty u)
  have hlength : turns.length < stepBound t :=
    Nat.lt_of_le_of_lt (hl.length_le hr hstart hnone) Search.work_start_lt
  have hleast : leastCosts t costs source = .ok final.best := by
    rw [leastCosts, if_pos hs, search, hl.run_eq (Nat.le_of_lt hlength)]
    rfl
  exact {
    frontier_eq := hl.frontier_eq
    length_le := Nat.le_of_lt_succ hlength
    leastCosts_eq := hleast
    length_popped := hl.length_popped
    pairwise_popped := hl.pairwise_popped hr hstart hnone
    expandedOnce := by
      rintro v ⟨w⟩
      obtain ⟨c, hc⟩ := w.exists_isLeast costs
      have hv : v < t.nodeCount := (isLeastCost_iff_isLeast.mpr hc).1.lt_nodeCount hr hs
      have hb : final.bestOf? v = some c :=
        Option.join_eq_some_iff.mpr (((tabulates_of_leastCosts hr hleast).some_iff hv).mpr hc)
      exact ⟨c, hc, hl.expandedOnce hr hstart hnone (Finset.notMem_empty v) hb⟩
    reachable := by
      intro s hmem v c he
      have hleast := (hl.reached (.start hs) s hmem).isLeastCost hr he
      obtain ⟨w, -⟩ := (isLeastCost_iff_isLeast.mp hleast).1
      exact ⟨w⟩ }

/-- The search comes to its end and settles each node once. Where no sum that it forms leaves
64 bits, its loop ends, with nothing left in the frontier and after no more turns than there
are ends of links, and one; the costs of the entries that the turns take off never go down;
and every node that can be reached is expanded in exactly one turn, at its least cost, and has
this cost ever after. -/
theorem search_settles (hr : t.LinksInRange) (hs : source < t.nodeCount)
    (hfit : ∀ s, Reached t costs source s → ∀ a b, Adds t costs source s a b → a + b < 2 ^ 64) :
    (∃ turns final, Loop t costs source (.start t.nodeCount source) turns final) ∧
      ∀ turns final, Loop t costs source (.start t.nodeCount source) turns final →
        Settles t costs source turns final :=
  ⟨exists_loop hr hfit (.start hs) (Search.Invariant.start costs hs)
    fun u hu => absurd hu (Finset.notMem_empty u), fun _ _ hl => hl.settles hr hs⟩

/-- The third router is expanded at six. Its entries for the two links from the source cost seven
and nine, and are outdated when they come up. -/
theorem search_settles_crossroads : crossroads.LinksInRange ∧ 0 < crossroads.nodeCount ∧
    (∀ s, Reached crossroads tolls 0 s → ∀ a b, Adds crossroads tolls 0 s a b → a + b < 2 ^ 64) ∧
      ∃ turns final, Loop crossroads tolls 0 (.start crossroads.nodeCount 0) turns final ∧
        Settles crossroads tolls 0 turns final ∧ ExpandedOnce turns final 2 6 := by
  have hr := crossroads_linksInRange
  have hs : 0 < crossroads.nodeCount := by decide
  have hok : leastCosts crossroads tolls 0 =
    .ok #[some 0, some 0, some 6, some 9, none] := rfl
  have hsums := (exists_leastCosts_iff_sumsFit hr).mp ⟨_, hok⟩
  have hfit : ∀ s, Reached crossroads tolls 0 s → ∀ a b, Adds crossroads tolls 0 s a b →
      a + b < 2 ^ 64 := fun s hreached a b hadds => hreached.sum_lt hr hsums hadds
  obtain ⟨⟨turns, final, hl⟩, hsettles⟩ := search_settles hr hs hfit
  have hsettled := hsettles turns final hl
  have h6 : IsLeast (walkCosts crossroads tolls 0 2) 6 :=
    ((tabulates_of_leastCosts hr hok).some_iff (by decide)).mp rfl
  obtain ⟨c, hc, honce⟩ := hsettled.expandedOnce 2 (h6.1.elim fun w _ => ⟨w⟩)
  exact ⟨hr, hs, hfit, turns, final, hl, hsettled, hc.unique h6 ▸ honce⟩

end CoherentMemory.Interconnect
