import CoherentMemory.Interconnect.Hops
import CoherentMemory.Proofs.Interconnect.Route

/-!
# The search for hop distances

`hopDistance` against `Route`. The breadth-first search has expanded the nodes
`done`, the last of them at the distance `level`; the queue holds the discovered
nodes that are left, in the order of their distances, none of which is below
`level` or above its successor (`Flood.Invariant`). Every expansion is of a new
node, so that the search does not run out of steps before it meets its target
(`Flood.Invariant.run_eq_some`), and `hopDistance_eq_some` says that it gives the
length of the shortest routes.
-/

namespace CoherentMemory.Interconnect

variable {t : Topology} {source : NodeId}

theorem Route.hop {u v : NodeId} {k : Nat} {l : Link} (h : Route t hopCosts source u k)
    (hl : l ∈ t.links) (hj : l.Joins u v) : Route t hopCosts source v (k + 1) := by
  have hr := Route.extend h hl hj
  rwa [transitCost_eq_zero fun _ => rfl] at hr

namespace Flood

/-! ## Discoveries -/

/-- A node that is not discovered yet. -/
def IsNew (s : Flood) (v : NodeId) : Prop :=
  v < s.distance.size ∧ s.distanceOf? v = none

theorem isNew_iff {s : Flood} {v : NodeId} : s.IsNew v ↔ s.distance[v]? = some none := by
  unfold IsNew distanceOf?
  by_cases h : v < s.distance.size
  · rw [Array.getElem?_eq_getElem h]
    simp [h]
  · rw [Array.getElem?_eq_none (Nat.le_of_not_lt h)]
    simp [h]

theorem discover_of_isNew {s : Flood} {w : NodeId} (h : s.IsNew w) (d : Nat) :
    s.discover d w = ⟨s.distance.setIfInBounds w (some d), s.queue ++ [w]⟩ :=
  if_pos (isNew_iff.mp h)

theorem discover_of_not_isNew {s : Flood} {w : NodeId} (h : ¬ s.IsNew w) (d : Nat) :
    s.discover d w = s :=
  if_neg fun c => h (isNew_iff.mpr c)

theorem distanceOf?_discover_self {s : Flood} {w : NodeId} (h : s.IsNew w) (d : Nat) :
    (s.discover d w).distanceOf? w = some d := by
  rw [discover_of_isNew h, distanceOf?, Array.getElem?_setIfInBounds_self_of_lt h.1]
  rfl

theorem distanceOf?_discover_of_ne (s : Flood) {v w : NodeId} (h : w ≠ v) (d : Nat) :
    (s.discover d w).distanceOf? v = s.distanceOf? v := by
  by_cases hn : s.IsNew w
  · rw [discover_of_isNew hn, distanceOf?, Array.getElem?_setIfInBounds_ne h]
    rfl
  · rw [discover_of_not_isNew hn]

/-- A discovery leaves the distances of discovered nodes. -/
theorem distanceOf?_discover_of_eq_some {s : Flood} {v : NodeId} {e : Nat}
    (h : s.distanceOf? v = some e) (d : Nat) (w : NodeId) :
    (s.discover d w).distanceOf? v = some e := by
  by_cases c : w = v
  · subst c
    have hn : ¬ s.IsNew w := fun hn => by
      rw [hn.2] at h
      cases h
    rw [discover_of_not_isNew hn, h]
  · rw [distanceOf?_discover_of_ne s c, h]

theorem distanceOf?_foldl_discover {s : Flood} {v : NodeId} {e : Nat}
    (h : s.distanceOf? v = some e) (d : Nat) (ws : List NodeId) :
    (ws.foldl (discover d) s).distanceOf? v = some e := by
  induction ws generalizing s with
  | nil => exact h
  | cons w ws ih => exact ih (distanceOf?_discover_of_eq_some h d w)

@[simp] theorem size_discover (s : Flood) (d : Nat) (w : NodeId) :
    (s.discover d w).distance.size = s.distance.size := by
  unfold discover
  split
  · exact Array.size_setIfInBounds
  · rfl

/-- Once a node is discovered, it has a distance: its earlier one, or the new one. -/
theorem distanceOf?_foldl_discover_of_mem {s : Flood} {w : NodeId} {ws : List NodeId} {d : Nat}
    (hw : w ∈ ws) (hs : w < s.distance.size) (hd : ∀ e, s.distanceOf? w = some e → e ≤ d) :
    ∃ e, (ws.foldl (discover d) s).distanceOf? w = some e ∧ e ≤ d := by
  induction ws generalizing s with
  | nil => cases hw
  | cons u ws ih =>
    rcases List.mem_cons.mp hw with rfl | hw
    · by_cases hn : s.IsNew w
      · exact ⟨d, distanceOf?_foldl_discover (distanceOf?_discover_self hn d) d ws, Nat.le_refl d⟩
      · cases he : s.distanceOf? w with
        | none => exact absurd ⟨hs, he⟩ hn
        | some e =>
          have he' := distanceOf?_discover_of_eq_some he d w
          exact ⟨e, distanceOf?_foldl_discover he' d ws, hd e he⟩
    · refine ih hw (by rw [size_discover]; exact hs) fun e he => ?_
      cases h₀ : s.distanceOf? w with
      | some e₀ =>
        rw [distanceOf?_discover_of_eq_some h₀] at he
        exact hd e (h₀.trans he)
      | none =>
        by_cases c : u = w
        · subst c
          rw [distanceOf?_discover_self ⟨hs, h₀⟩] at he
          exact Nat.le_of_eq (Option.some.inj he).symm
        · rw [distanceOf?_discover_of_ne s c, h₀] at he
          cases he

/-! ## The invariant -/

/-- The distance at which a node was discovered, zero for others. -/
def depth (s : Flood) (v : NodeId) : Nat :=
  (s.distanceOf? v).getD 0

theorem depth_eq {s : Flood} {v : NodeId} {d : Nat} (h : s.distanceOf? v = some d) :
    s.depth v = d := by
  rw [depth, h]
  rfl

/-- What holds of a search that has expanded the nodes `done`, the last of them at
the distance `level`. -/
structure Invariant (t : Topology) (source : NodeId) (done : Finset NodeId) (level : Nat)
    (s : Flood) : Prop where
  size_eq : s.distance.size = t.nodeCount
  source_distance : s.distanceOf? source = some 0
  /-- Distances are lengths of routes. -/
  route : ∀ {v d}, s.distanceOf? v = some d → Route t hopCosts source v d
  /-- A node that was discovered and not expanded is in the queue. -/
  queued : ∀ {v d}, s.distanceOf? v = some d → v ∉ done → v ∈ s.queue
  queue_new : ∀ v ∈ s.queue, v ∉ done ∧
    ∃ d, s.distanceOf? v = some d ∧ level ≤ d ∧ d ≤ level + 1
  nodup : s.queue.Nodup
  sorted : s.queue.Pairwise fun u v => s.depth u ≤ s.depth v
  done_le : ∀ v ∈ done, ∃ d, s.distanceOf? v = some d ∧ d ≤ level

/-- All neighbours of an expanded node are at most one link farther away. -/
def Expanded (t : Topology) (s : Flood) (v : NodeId) : Prop :=
  ∀ d, s.distanceOf? v = some d → ∀ w ∈ t.neighbours v, ∃ e, s.distanceOf? w = some e ∧ e ≤ d + 1

variable {done : Finset NodeId} {level : Nat} {s : Flood}

theorem Invariant.lt_nodeCount (h : s.Invariant t source done level) {v : NodeId} {d : Nat}
    (hd : s.distanceOf? v = some d) : v < t.nodeCount := by
  rw [← h.size_eq]
  by_contra hn
  rw [distanceOf?, Array.getElem?_eq_none (Nat.le_of_not_lt hn)] at hd
  cases hd

theorem Invariant.card_le (h : s.Invariant t source done level) : done.card ≤ t.nodeCount := by
  have hsub : done ⊆ Finset.range t.nodeCount := by
    intro v hv
    obtain ⟨d, hd, -⟩ := h.done_le v hv
    exact Finset.mem_range.mpr (h.lt_nodeCount hd)
  have hle := Finset.card_le_card hsub
  rwa [Finset.card_range] at hle

theorem Invariant.start (h : source < t.nodeCount) :
    (Flood.start t.nodeCount source).Invariant t source ∅ 0 := by
  have found {v : NodeId} {d : Nat} :
      (Flood.start t.nodeCount source).distanceOf? v = some d ↔ v = source ∧ d = 0 :=
    join_getElem?_start_iff h
  constructor
  case size_eq => rw [Flood.start, Array.size_setIfInBounds, Array.size_replicate]
  case source_distance => exact found.mpr ⟨rfl, rfl⟩
  case route =>
    intro v d hv
    obtain ⟨rfl, rfl⟩ := found.mp hv
    exact .start
  case queued =>
    intro v d hv _
    obtain ⟨rfl, rfl⟩ := found.mp hv
    exact List.mem_singleton_self _
  case queue_new =>
    intro v hv
    cases List.mem_singleton.mp hv
    exact ⟨Finset.notMem_empty _, 0, found.mpr ⟨rfl, rfl⟩, Nat.le_refl 0, Nat.zero_le _⟩
  case nodup => exact List.nodup_singleton _
  case sorted => exact List.pairwise_singleton _ _
  case done_le => exact fun v hv => absurd hv (Finset.notMem_empty v)

/-- A discovery one link beyond the level keeps the invariant. -/
theorem Invariant.discover (h : s.Invariant t source done level) {w : NodeId}
    (hr : Route t hopCosts source w (level + 1)) :
    (s.discover (level + 1) w).Invariant t source done level := by
  by_cases hn : s.IsNew w
  swap
  · rw [discover_of_not_isNew hn]
    exact h
  have hself := distanceOf?_discover_self hn (level + 1)
  have hold {v : NodeId} {e : Nat} (hv : s.distanceOf? v = some e) :=
    distanceOf?_discover_of_eq_some hv (level + 1) w
  have hq : (s.discover (level + 1) w).queue = s.queue ++ [w] := by rw [discover_of_isNew hn]
  have hwd : w ∉ done := fun hd => by
    obtain ⟨e, he, -⟩ := h.done_le w hd
    rw [hn.2] at he
    cases he
  have hwq : w ∉ s.queue := fun hm => by
    obtain ⟨-, e, he, -⟩ := h.queue_new w hm
    rw [hn.2] at he
    cases he
  have depth_old {v : NodeId} (hv : v ∈ s.queue) :
      (s.discover (level + 1) w).depth v = s.depth v := by
    obtain ⟨-, e, he, -⟩ := h.queue_new v hv
    rw [depth_eq (hold he), depth_eq he]
  constructor
  case size_eq =>
    rw [size_discover]
    exact h.size_eq
  case source_distance => exact hold h.source_distance
  case route =>
    intro v d hv
    by_cases c : w = v
    · subst c
      rw [hself] at hv
      cases hv
      exact hr
    · rw [distanceOf?_discover_of_ne s c] at hv
      exact h.route hv
  case queued =>
    intro v d hv hd
    rw [hq, List.mem_append, List.mem_singleton]
    by_cases c : w = v
    · exact .inr c.symm
    · rw [distanceOf?_discover_of_ne s c] at hv
      exact .inl (h.queued hv hd)
  case queue_new =>
    intro v hv
    rw [hq, List.mem_append, List.mem_singleton] at hv
    rcases hv with hv | rfl
    · obtain ⟨hd, e, he, hle⟩ := h.queue_new v hv
      exact ⟨hd, e, hold he, hle⟩
    · exact ⟨hwd, level + 1, hself, Nat.le_succ _, Nat.le_refl _⟩
  case nodup =>
    rw [hq]
    exact List.nodup_append.mpr ⟨h.nodup, List.nodup_singleton w, fun u hu v hv e =>
      hwq (List.mem_singleton.mp hv ▸ e ▸ hu)⟩
  case sorted =>
    rw [hq]
    refine List.pairwise_append.mpr ⟨h.sorted.imp_of_mem fun hu hv hle => ?_,
      List.pairwise_singleton _ w, fun u hu v hv => ?_⟩
    · rw [depth_old hu, depth_old hv]
      exact hle
    · obtain ⟨-, e, he, -, hle⟩ := h.queue_new u hu
      rw [List.mem_singleton.mp hv, depth_eq (hold he), depth_eq hself]
      exact hle
  case done_le =>
    intro v hv
    obtain ⟨e, he, hle⟩ := h.done_le v hv
    exact ⟨e, hold he, hle⟩

theorem Invariant.foldl_discover (h : s.Invariant t source done level) {ws : List NodeId}
    (hr : ∀ w ∈ ws, Route t hopCosts source w (level + 1)) :
    (ws.foldl (Flood.discover (level + 1)) s).Invariant t source done level := by
  induction ws generalizing s with
  | nil => exact h
  | cons w ws ih =>
    have hd := h.discover (hr w (List.mem_cons_self ..))
    exact ih hd fun u hu => hr u (List.mem_cons_of_mem _ hu)

/-! ## Expansions -/

variable {v : NodeId} {d : Nat} {rest : List NodeId}

/-- Taking the first node off the queue makes it expanded. -/
theorem Invariant.take (h : s.Invariant t source done level) (hq : s.queue = v :: rest)
    (hd : s.distanceOf? v = some d) :
    (Flood.mk s.distance rest).Invariant t source (insert v done) d := by
  have hn := h.nodup
  have hs := h.sorted
  rw [hq] at hn hs
  obtain ⟨-, e, he, hle, hlt⟩ := h.queue_new v (by rw [hq]; exact List.mem_cons_self ..)
  have hde : d = e := Option.some.inj (hd.symm.trans he)
  constructor
  case size_eq => exact h.size_eq
  case source_distance => exact h.source_distance
  case route => exact h.route
  case queued =>
    intro u e hu hnd
    have hm := h.queued hu fun hd' => hnd (Finset.mem_insert_of_mem hd')
    rw [hq] at hm
    rcases List.mem_cons.mp hm with rfl | hm
    · exact absurd (Finset.mem_insert_self ..) hnd
    · exact hm
  case queue_new =>
    intro u hu
    obtain ⟨hnd, e', he', hle', hlt'⟩ := h.queue_new u (by rw [hq]; exact List.mem_cons_of_mem _ hu)
    have hdepth := (List.pairwise_cons.mp hs).1 u hu
    rw [depth_eq hd, depth_eq he'] at hdepth
    refine ⟨fun hm => ?_, e', he', hdepth, by omega⟩
    rcases Finset.mem_insert.mp hm with rfl | hm
    · exact (List.nodup_cons.mp hn).1 hu
    · exact hnd hm
  case nodup => exact (List.nodup_cons.mp hn).2
  case sorted => exact (List.pairwise_cons.mp hs).2
  case done_le =>
    intro u hu
    rcases Finset.mem_insert.mp hu with rfl | hu
    · exact ⟨d, hd, Nat.le_refl d⟩
    · obtain ⟨e', he', hle'⟩ := h.done_le u hu
      exact ⟨e', he', by omega⟩

/-- The state after expanding `v` at the distance `d`. -/
def expand (t : Topology) (s : Flood) (v : NodeId) (d : Nat) : Flood :=
  (t.neighbours v).foldl (discover (d + 1)) s

theorem Invariant.expand (h : s.Invariant t source done d) (hd : s.distanceOf? v = some d) :
    (s.expand t v d).Invariant t source done d := by
  refine h.foldl_discover fun w hw => ?_
  obtain ⟨-, l, hl, hj⟩ := mem_neighbours.mp hw
  exact (h.route hd).hop hl hj

theorem Expanded.expand {u : NodeId} (h : s.Invariant t source done d) (hu : u ∈ done)
    (he : s.Expanded t u) : (s.expand t v d).Expanded t u := by
  intro e hue w hw
  obtain ⟨e₀, he₀, -⟩ := h.done_le u hu
  have hee : e₀ = e := Option.some.inj ((distanceOf?_foldl_discover he₀ _ _).symm.trans hue)
  obtain ⟨f, hf, hle⟩ := he e (hee ▸ he₀) w hw
  exact ⟨f, distanceOf?_foldl_discover hf _ _, hle⟩

/-- An expanded node has discovered its neighbours. -/
theorem Invariant.expanded_expand (hr : t.LinksInRange) (h : s.Invariant t source done d)
    (hd : s.distanceOf? v = some d) : (s.expand t v d).Expanded t v := by
  intro e hve w hw
  have hde : d = e := Option.some.inj ((distanceOf?_foldl_discover hd _ _).symm.trans hve)
  subst hde
  obtain ⟨-, l, hl, hj⟩ := mem_neighbours.mp hw
  refine distanceOf?_foldl_discover_of_mem hw (by rw [h.size_eq]; exact hr.lt_of_joins hl hj)
    fun e he => ?_
  -- a discovered node is expanded, at no more than `d`, or in the queue, at no more than `d + 1`
  by_cases hwd : w ∈ done
  · obtain ⟨f, hf, hle⟩ := h.done_le w hwd
    have := Option.some.inj (he.symm.trans hf)
    omega
  · obtain ⟨-, f, hf, -, hle⟩ := h.queue_new w (h.queued he hwd)
    have := Option.some.inj (he.symm.trans hf)
    omega

/-! ## Runs -/

/-- Every route leads to a node that was discovered at no more than its length, or
it is at least as long as the distance of some node of the queue. -/
theorem Invariant.discovered_or (h : s.Invariant t source done level)
    (he : ∀ u ∈ done, s.Expanded t u) {w : NodeId} {k : Nat} (hr : Route t hopCosts source w k) :
    (∃ e, s.distanceOf? w = some e ∧ e ≤ k) ∨
      ∃ u ∈ s.queue, ∃ e, s.distanceOf? u = some e ∧ e ≤ k := by
  induction hr with
  | start => exact .inl ⟨0, h.source_distance, Nat.le_refl 0⟩
  | @extend u v k l _ hl hj ih =>
    rw [transitCost_eq_zero fun _ => rfl]
    show (∃ e, s.distanceOf? v = some e ∧ e ≤ k + 1) ∨ _
    rcases ih with ⟨e, hu, hle⟩ | ⟨x, hx, e, hxe, hle⟩
    · by_cases hud : u ∈ done
      · have hw : v ∈ t.neighbours u := mem_neighbours.mpr ⟨h.lt_nodeCount hu, l, hl, hj⟩
        obtain ⟨f, hf, hfle⟩ := he u hud e hu v hw
        exact .inl ⟨f, hf, by omega⟩
      · exact .inr ⟨u, h.queued hu hud, e, hu, Nat.le_succ_of_le hle⟩
    · exact .inr ⟨x, hx, e, hxe, Nat.le_succ_of_le hle⟩

/-- The first node of the queue was discovered at the length of its shortest routes. -/
theorem Invariant.isLeastCost_head (h : s.Invariant t source done level)
    (he : ∀ u ∈ done, s.Expanded t u) (hq : s.queue = v :: rest) (hd : s.distanceOf? v = some d) :
    IsLeastCost t hopCosts source v d := by
  refine ⟨h.route hd, fun k hk => ?_⟩
  rcases h.discovered_or he hk with ⟨e, hve, hle⟩ | ⟨u, hu, e, hue, hle⟩
  · have := Option.some.inj (hd.symm.trans hve)
    omega
  · rw [hq] at hu
    rcases List.mem_cons.mp hu with rfl | hu
    · have := Option.some.inj (hd.symm.trans hue)
      omega
    · have hs := h.sorted
      rw [hq] at hs
      have hdepth := (List.pairwise_cons.mp hs).1 u hu
      rw [depth_eq hd, depth_eq hue] at hdepth
      omega

/-- A run with more steps than nodes left to expand gives the length of the
shortest routes to a target that was not expanded before. -/
theorem Invariant.run_eq_some (hr : t.LinksInRange) {target : NodeId} {k : Nat} {fuel : Nat}
    {done : Finset NodeId} {level : Nat} {s : Flood} (h : s.Invariant t source done level)
    (he : ∀ u ∈ done, s.Expanded t u) (ht : target ∉ done) (hf : t.nodeCount < fuel + done.card) :
    run t target fuel s = some k ↔ IsLeastCost t hopCosts source target k := by
  induction fuel generalizing done level s with
  | zero =>
    have := h.card_le
    omega
  | succ fuel ih =>
    cases hq : s.queue with
    | nil =>
      simp only [run, hq]
      refine ⟨nofun, fun hk => ?_⟩
      rcases h.discovered_or he hk.1 with ⟨e, hte, -⟩ | ⟨u, hu, -⟩
      · have hm := h.queued hte ht
        rw [hq] at hm
        cases hm
      · rw [hq] at hu
        cases hu
    | cons v rest =>
      obtain ⟨hvd, d, hd, -⟩ := h.queue_new v (by rw [hq]; exact List.mem_cons_self ..)
      simp only [run, hq]
      by_cases e : v = target
      · subst e
        have hleast := h.isLeastCost_head he hq hd
        rw [if_pos rfl, hd]
        exact ⟨fun hk => Option.some.inj hk ▸ hleast, fun hk => congrArg some (hleast.unique hk)⟩
      · rw [if_neg e, hd, Option.getD_some]
        have htake := h.take hq hd
        refine ih (htake.expand hd) (fun u hu => ?_) ?_ ?_
        · rcases Finset.mem_insert.mp hu with rfl | hud
          · exact htake.expanded_expand hr hd
          · exact Expanded.expand htake hu (he u hud)
        · rw [Finset.mem_insert]
          rintro (rfl | hm)
          · exact e rfl
          · exact ht hm
        · rw [Finset.card_insert_of_notMem hvd]
          omega

end Flood

/-- The hop distance between two nodes is the length of the shortest routes
between them. -/
theorem hopDistance_eq_some (hr : t.LinksInRange) {target : NodeId} (hs : source < t.nodeCount)
    (ht : target < t.nodeCount) {k : Nat} :
    t.hopDistance source target = some k ↔ IsLeastCost t hopCosts source target k := by
  have hc : (decide (source < t.nodeCount) && decide (target < t.nodeCount)) = true := by
    rw [decide_eq_true hs, decide_eq_true ht]
    rfl
  rw [Topology.hopDistance, if_pos hc]
  exact (Flood.Invariant.start hs).run_eq_some hr (fun u hu => absurd hu (Finset.notMem_empty u))
    (Finset.notMem_empty _) (by rw [Finset.card_empty]; omega)

end CoherentMemory.Interconnect
