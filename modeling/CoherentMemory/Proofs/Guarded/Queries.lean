import CoherentMemory.Proofs.Guarded.Layout

/-!
# Guarded queries

What is asked of a topology in guarded operations: the links of a node, the router of an
endpoint, hop distances and least costs. The searches read and write tables with an entry
for each node and meet no other nodes, since links are in range. A distance is at most
the number of nodes expanded so far, so that it can be counted (`flood_eq`); the sums of
costs are those of the unguarded search, which has a result only if they fit
(`leastCosts_eq`). Neither search is at the end of its rounds before the end of its work.
-/

namespace CoherentMemory.Guarded

open Interconnect

variable {t : Topology}

/-! ## Links -/

/-- The links with `v` as an end, looked up at their positions. -/
def linksOf (t : Topology) (v : NodeId) : Except Fault (List Link) := do
  match (← adjacency t.nodeCount t.links)[v]? with
  | none => return []
  | some row => row.toList.mapM fun i => entry t.links[i]?

/-- The nodes at the other ends of the links of `v`. -/
def neighbours (t : Topology) (v : NodeId) : Except Fault (List NodeId) := do
  return (← linksOf t v).filterMap (·.other? v)

/-- The router next to the first endpoint of a controller with the given name. -/
def attachmentOf (t : Topology) (name : String) : Except Fault (Option NodeId) :=
  match t.endpointNamed? name with
  | none => .ok none
  | some n => do
    (← neighbours t n.id).findM? fun v => do return (← entry (t.node? v)).isRouter

section Links

variable (hr : t.LinksInRange)
include hr

theorem linksOf_eq (v : NodeId) : linksOf t v = .ok (t.linksOf v) := by
  obtain ⟨table, htable, hresolve⟩ := adjacency_eq t.nodeCount t.links hr
  have hincident : t.incident = incidence t.nodeCount t.links := t.incident_eq
  have hv := congrArg (fun a => a[v]?) hresolve
  simp only [resolve, Array.getElem?_map] at hv
  rw [linksOf, htable, ok_bind, Topology.linksOf, hincident]
  cases ht : table[v]? with
  | none =>
    rw [ht, Option.map_none, eq_comm, Option.map_eq_none_iff] at hv
    rw [hv]
    rfl
  | some row =>
    rw [ht, Option.map_some, eq_comm, Option.map_eq_some_iff] at hv
    obtain ⟨links, hlinks, hrow⟩ := hv
    rw [hlinks]
    refine mapM_entry ?_
    have hlist := congrArg Array.toList hrow
    rw [Array.toList_map, Array.toList_map] at hlist
    exact hlist.symm

theorem neighbours_eq (v : NodeId) : neighbours t v = .ok (t.neighbours v) := by
  rw [neighbours, linksOf_eq hr]
  rfl

theorem attachmentOf_eq (name : String) : attachmentOf t name = .ok (t.attachmentOf? name) := by
  unfold attachmentOf Topology.attachmentOf?
  cases t.endpointNamed? name with
  | none => rfl
  | some n =>
    simp only [neighbours_eq hr, ok_bind, Option.bind_some]
    refine findM?_eq fun v hv => ?_
    obtain ⟨-, l, hl, hj⟩ := mem_neighbours.mp hv
    have hlt := hr.lt_of_joins hl hj
    have hnode : t.node? v = some t.nodes[v] := Array.getElem?_eq_getElem hlt
    rw [Topology.isRouter, hnode]
    rfl

end Links

/-! ## Hop distances -/

/-- What stands for the distance of a node that is not discovered. -/
def undiscovered : Nat := 0xFFFFFFFFFFFFFFFF

/-- Discovers a node from `v`, unless it is discovered already. -/
def discover (v : NodeId) (s : Flood) (w : NodeId) : Except Fault Flood := do
  match ← entry s.distance[w]? with
  | some _ => return s
  | none => do
    let distance ← entry s.distance[v]?
    let next ← add (distance.getD undiscovered) 1
    return ⟨← set s.distance w (some next), s.queue ++ [w]⟩

/-- Expands nodes until `target` is next in the queue. -/
def flood (t : Topology) (target : NodeId) : Nat → Flood → Except Fault (Option Nat)
  | 0, _ => .error .unfinished
  | fuel + 1, s =>
    match s.queue with
    | [] => .ok none
    | v :: rest =>
      if v = target then entry s.distance[v]?
      else do
        let next ← (← neighbours t v).foldlM (discover v) ⟨s.distance, rest⟩
        flood t target fuel next

/-- The number of links on a shortest path between two nodes. -/
def hopDistance (t : Topology) (source target : NodeId) : Except Fault (Option Nat) :=
  if source < t.nodeCount && target < t.nodeCount then
    flood t target (t.nodeCount + 1) (Flood.start t.nodeCount source)
  else .ok none

section Hops

variable {source : NodeId} {done : Finset NodeId} {level d : Nat} {s : Flood} {v : NodeId}

theorem getElem?_of_distanceOf? (hd : s.distanceOf? v = some d) :
    s.distance[v]? = some (some d) :=
  Option.join_eq_some_iff.mp hd

theorem discover_eq (hd : s.distanceOf? v = some d) (hlt : d + 1 < 2 ^ 64) {w : NodeId}
    (hw : w < s.distance.size) : discover v s w = .ok (s.discover (d + 1) w) := by
  have hentry := Array.getElem?_eq_getElem hw
  rw [discover, hentry, entry_some, ok_bind]
  cases hfound : s.distance[w] with
  | some e =>
    have hold : ¬ s.IsNew w := by
      rw [Flood.isNew_iff, hentry, hfound]
      nofun
    rw [Flood.discover_of_not_isNew hold]
    rfl
  | none =>
    have hnew : s.IsNew w := Flood.isNew_iff.mpr (hfound ▸ hentry)
    simp only [getElem?_of_distanceOf? hd, entry_some, ok_bind, Option.getD_some]
    rw [add_eq hlt, ok_bind, set_eq hw, Flood.discover_of_isNew hnew]
    rfl

theorem foldlM_discover_eq (hd : s.distanceOf? v = some d) (hlt : d + 1 < 2 ^ 64)
    {ws : List NodeId} (hws : ∀ w ∈ ws, w < s.distance.size) :
    ws.foldlM (discover v) s = .ok (ws.foldl (Flood.discover (d + 1)) s) := by
  induction ws generalizing s with
  | nil => rfl
  | cons w ws ih =>
    rw [List.forall_mem_cons] at hws
    rw [List.foldlM_cons, discover_eq hd hlt hws.1, ok_bind]
    exact ih (Flood.distanceOf?_discover_of_eq_some hd (d + 1) w) fun u hu => by
      rw [Flood.size_discover]
      exact hws.2 u hu

/-- A search that has expanded as many nodes as its level has no distance that could not
be counted, and it meets its target before its rounds are over. -/
theorem flood_eq (hr : t.LinksInRange) (hN : t.nodeCount < 2 ^ 63) {target : NodeId} {fuel : Nat}
    (h : s.Invariant t source done level) (hlevel : level ≤ done.card)
    (hf : t.nodeCount < fuel + done.card) :
    flood t target fuel s = .ok (Flood.run t target fuel s) := by
  induction fuel generalizing done level s with
  | zero =>
    have := h.card_le
    omega
  | succ fuel ih =>
    cases hq : s.queue with
    | nil => simp only [flood, Flood.run, hq]
    | cons v rest =>
      obtain ⟨hvd, d, hd, hle, hlt⟩ := h.queue_new v (by rw [hq]; exact List.mem_cons_self ..)
      have hcard := h.card_le
      simp only [flood, Flood.run, hq]
      split
      · rw [getElem?_of_distanceOf? hd, hd]
        rfl
      · have htake := h.take hq hd
        have hneighbours : ∀ w ∈ t.neighbours v, w < s.distance.size := by
          intro w hw
          obtain ⟨-, l, hl, hj⟩ := mem_neighbours.mp hw
          rw [h.size_eq]
          exact hr.lt_of_joins hl hj
        have hdv : (Flood.mk s.distance rest).distanceOf? v = some d := hd
        rw [neighbours_eq hr, ok_bind, foldlM_discover_eq hdv (by omega) hneighbours, ok_bind, hd,
          Option.getD_some]
        have hinsert := Finset.card_insert_of_notMem hvd
        exact ih (htake.expand hd) (by omega) (by omega)

theorem hopDistance_eq (hr : t.LinksInRange) (hN : t.nodeCount < 2 ^ 63) (source target : NodeId) :
    hopDistance t source target = .ok (t.hopDistance source target) := by
  unfold hopDistance Topology.hopDistance
  split
  · rename_i h
    rw [Bool.and_eq_true, decide_eq_true_eq] at h
    refine flood_eq hr hN (Flood.Invariant.start h.1) (Nat.le_refl 0) ?_
    rw [Finset.card_empty]
    exact Nat.lt_succ_self _
  · rfl

end Hops

/-! ## Least costs -/

/-- What a path pays for going on from `v`. -/
def transit (t : Topology) (costs : CostModel) (source v : NodeId) : Except Fault Nat :=
  if v = source then .ok 0 else do return costs.node (← entry (t.node? v))

/-- Enters a cost for a node if it is an improvement. -/
def offer (s : Search) (w : NodeId) (cost : Nat) : Except Fault Search := do
  let found ← entry s.best[w]?
  if found.all (cost < ·) then
    return ⟨← set s.best w (some cost), enqueue (cost, w) s.frontier⟩
  else return s

/-- Offers the node at the other end of a link the cost of the path over `v`. -/
def relax (costs : CostModel) (v : NodeId) (cost transit : Nat) (s : Search) (l : Link) :
    Except Fault Search :=
  match l.other? v with
  | none => .ok s
  | some w => do
    let candidate ← add (← add cost transit) (costs.link l)
    offer s w candidate

/-- Takes the first entry off the frontier. -/
def step (t : Topology) (costs : CostModel) (source : NodeId) (s : Search) :
    Except Fault Search :=
  match s.frontier with
  | [] => .ok s
  | (cost, v) :: rest => do
    let found ← entry s.best[v]?
    if found.any (· < cost) then return ⟨s.best, rest⟩
    else do
      let paid ← transit t costs source v
      (← linksOf t v).foldlM (relax costs v cost paid) ⟨s.best, rest⟩

/-- Steps until the frontier is empty, at most `fuel` of them. -/
def run (t : Topology) (costs : CostModel) (source : NodeId) : Nat → Search → Except Fault Search
  | 0, s => if s.frontier.isEmpty then .ok s else .error .unfinished
  | fuel + 1, s =>
    if s.frontier.isEmpty then .ok s
    else do run t costs source fuel (← step t costs source s)

/-- The least cost of a path from `source` to each node. -/
def leastCosts (t : Topology) (costs : CostModel) (source : NodeId) :
    Except Fault (Array (Option Nat)) :=
  if source < t.nodeCount then do
    return (← run t costs source (stepBound t) (.start t.nodeCount source)).best
  else .ok (Array.replicate t.nodeCount none)

section Costs

variable {costs : CostModel} {source : Nat} {s s' : Search} {v : Nat} {cost : Nat}

theorem transit_eq (hv : v < t.nodeCount) :
    transit t costs source v = .ok (transitCost t costs source v) := by
  have hnode : t.node? v = some t.nodes[v] := Array.getElem?_eq_getElem hv
  unfold transit transitCost
  split
  · rfl
  · rw [hnode]
    rfl

theorem offer_eq {w : Nat} (hw : w < s.best.size) (x : Nat) : offer s w x = .ok (s.offer w x) := by
  have hentry := Array.getElem?_eq_getElem hw
  have himproves : s.improves w x = s.best[w].all (x < ·) := by
    rw [Search.improves, hentry]
    cases s.best[w] <;> rfl
  rw [offer, hentry, entry_some, ok_bind, Search.offer, himproves, set_eq hw]
  split <;> rfl

/-- Where the unguarded offer has a result, so has the guarded one. -/
theorem relax_eq {l : Link} (hl : ∀ w, l.other? v = some w → w < s.best.size)
    (h : Interconnect.relax t costs source v cost s l = .ok s') :
    relax costs v cost (transitCost t costs source v) s l = .ok s' ∧
      s'.best.size = s.best.size := by
  rw [relax]
  rw [Interconnect.relax] at h
  cases ho : l.other? v with
  | none =>
    rw [ho] at h
    cases h
    exact ⟨rfl, rfl⟩
  | some w =>
    rw [ho] at h
    obtain ⟨candidate, hsum, rfl⟩ := map_eq_ok.mp h
    obtain ⟨rfl, hlt⟩ := checkedAdd_eq_ok.mp hsum
    show (add cost (transitCost t costs source v) >>= _) = _ ∧ _
    rw [add_eq (by omega), ok_bind, add_eq hlt, ok_bind, offer_eq (hl w ho)]
    exact ⟨rfl, Search.size_offer ..⟩

theorem foldlM_relax_eq {links : List Link}
    (hl : ∀ l ∈ links, ∀ w, l.other? v = some w → w < s.best.size)
    (h : links.foldlM (Interconnect.relax t costs source v cost) s = .ok s') :
    links.foldlM (relax costs v cost (transitCost t costs source v)) s = .ok s' := by
  induction links generalizing s with
  | nil =>
    cases h
    rfl
  | cons l links ih =>
    rw [List.forall_mem_cons] at hl
    rw [List.foldlM_cons] at h
    obtain ⟨s₁, hs₁, h⟩ := bind_eq_ok.mp h
    obtain ⟨hrelax, hsize⟩ := relax_eq hl.1 hs₁
    rw [List.foldlM_cons, hrelax, ok_bind]
    exact ih (by rw [hsize]; exact hl.2) h

variable {done : Finset NodeId} {level : Nat}

theorem step_eq (hr : t.LinksInRange) (h : s.Invariant t costs source done level)
    (hs : Interconnect.step t costs source s = .ok s') : step t costs source s = .ok s' := by
  unfold step
  unfold Interconnect.step at hs
  cases hf : s.frontier with
  | nil =>
    rw [hf] at hs
    cases hs
    rfl
  | cons e rest =>
    obtain ⟨cost, v⟩ := e
    obtain ⟨b, hb, -⟩ := h.entry (v := v) (c := cost) (by rw [hf]; exact List.mem_cons_self ..)
    have hentry : s.best[v]? = some (some b) := Option.join_eq_some_iff.mp hb
    simp only [hf, hb, Option.any_some] at hs
    simp only [hentry, entry_some, ok_bind, Option.any_some]
    split at hs
    · rename_i hold
      cases hs
      rw [if_pos hold]
      rfl
    · rename_i hnew
      rw [if_neg hnew, transit_eq (h.lt_nodeCount hb), ok_bind, linksOf_eq hr, ok_bind]
      refine foldlM_relax_eq (fun l hl w ho => ?_) hs
      show w < s.best.size
      rw [h.size_eq]
      exact hr.lt_of_joins (mem_linksOf.mp hl).2.1 (Link.other?_eq_some.mp ho)

/-- Where the unguarded run has a result and its rounds cover its work, the guarded one
has the same. -/
theorem run_eq (hr : t.LinksInRange) {fuel : Nat} (h : s.Invariant t costs source done level)
    (hc : ∀ u ∈ done, s.Relaxed t costs source u) (hw : s.work t done ≤ fuel)
    (hs : Interconnect.run t costs source fuel s = .ok s') :
    run t costs source fuel s = .ok s' := by
  induction fuel generalizing done level s with
  | zero =>
    have hempty : s.frontier = [] := by
      rw [Search.work] at hw
      exact List.length_eq_zero_iff.mp (by omega)
    cases hs
    rw [run, hempty]
    rfl
  | succ fuel ih =>
    cases hf : s.frontier with
    | nil =>
      rw [Search.run_of_nil t costs source hf] at hs
      cases hs
      rw [run, hf]
      rfl
    | cons e rest =>
      obtain ⟨c, v⟩ := e
      rw [Search.run_of_cons t costs source hf] at hs
      obtain ⟨s₁, hst, hs⟩ := bind_eq_ok.mp hs
      have hrun : run t costs source (fuel + 1) s = run t costs source fuel s₁ := by
        rw [run, hf, step_eq hr h hst]
        rfl
      rw [hrun]
      rcases h.step hr hc hf hst with ⟨-, rfl, h₁, hc₁⟩ | ⟨hd, hb, rfl, h₁, hc₁⟩
      · have := Search.work_drop_lt t done hf
        exact ih h₁ hc₁ (by omega) hs
      · have := Search.work_expand_lt costs source hf (h.lt_nodeCount hb) hd
        exact ih h₁ hc₁ (by omega) hs

theorem leastCosts_eq (hr : t.LinksInRange) {best : Array (Option Nat)}
    (h : Interconnect.leastCosts t costs source = .ok best) :
    leastCosts t costs source = .ok best := by
  unfold leastCosts
  unfold Interconnect.leastCosts at h
  split at h
  · rename_i hs
    obtain ⟨s, hrun, rfl⟩ := map_eq_ok.mp h
    rw [if_pos hs, run_eq hr (Search.Invariant.start costs hs)
      (fun u hu => absurd hu (Finset.notMem_empty u)) (Nat.le_of_lt Search.work_start_lt)
      hrun]
    rfl
  · rename_i hs
    rw [if_neg hs]
    exact congrArg _ (Except.ok.inj h)

end Costs

end CoherentMemory.Guarded
